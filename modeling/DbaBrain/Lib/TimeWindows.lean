import DbaBrain.Foundation.Execution
import DbaBrain.Foundation.PyValues

/-!
# Time windows

When a record may run and how often: thirteen integers and a set of weekdays,
read from a config with its older field names and the caller's defaults, and
written back with every field, the unset ones included.
-/

namespace DbaBrain.Lib.TimeWindows

open DbaBrain.Foundation DbaBrain.Foundation.Execution DbaBrain.Foundation.Text DbaBrain.Foundation.PyValues

/-! ## The fields -/

/-- `INT_FIELDS`. -/
inductive IntField
  | fromYear | toYear | fromMonth | toMonth | fromDay | toDay | fromHour | toHour | fromMinute | toMinute
  | repeatInterval | retryInterval | timeout
  deriving DecidableEq

namespace IntField

def name : IntField → String
  | fromYear => "from_year"
  | toYear => "to_year"
  | fromMonth => "from_month"
  | toMonth => "to_month"
  | fromDay => "from_day"
  | toDay => "to_day"
  | fromHour => "from_hour"
  | toHour => "to_hour"
  | fromMinute => "from_minute"
  | toMinute => "to_minute"
  | repeatInterval => "repeat_interval"
  | retryInterval => "retry_interval"
  | timeout => "timeout"

end IntField

open IntField

def intFields : List IntField :=
  [fromYear, toYear, fromMonth, toMonth, fromDay, toDay, fromHour, toHour, fromMinute, toMinute, repeatInterval,
    retryInterval, timeout]

def weekdaysField : String := "weekdays"

def legacyTimeWindowFields : List (String × IntField) :=
  [("day_from", fromDay), ("day_to", toDay), ("hour_from", fromHour), ("hour_to", toHour)]

def legacyTopLevelFields : List (String × IntField) :=
  [("interval_second", repeatInterval), ("interval_seconds", repeatInterval),
    ("repeat_interval_seconds", repeatInterval), ("timeout_seconds", timeout), ("default_timeout", timeout),
    ("check_error_interval_seconds", timeout), ("allowed_from_day", fromDay), ("allowed_to_day", toDay),
    ("allowed_from_hour", fromHour), ("allowed_to_hour", toHour)]

def manualOnly : Int := -1

/-- Monday is `1`, Sunday `7`. -/
def weekdayNames : List (Int × String) :=
  [(1, "Monday"), (2, "Tuesday"), (3, "Wednesday"), (4, "Thursday"), (5, "Friday"), (6, "Saturday"), (7, "Sunday")]

/-! ## Windows -/

structure Weekdays where
  days : List Int
  named : ∀ day ∈ days, day ∈ weekdayNames.map Prod.fst
  distinct : days.Nodup

namespace Weekdays

def empty : Weekdays := ⟨[], fun _ member => absurd member List.not_mem_nil, List.nodup_nil⟩

/-- `parsed.append(item)`, once the item is checked. -/
def append (weekdays : Weekdays) (day : Int) (isNamed : day ∈ weekdayNames.map Prod.fst)
    (isNew : day ∉ weekdays.days) : Weekdays where
  days := weekdays.days ++ [day]
  named := by
    intro other member
    rcases List.mem_append.mp member with before | last
    · exact weekdays.named other before
    · rw [List.mem_singleton.mp last]
      exact isNamed
  distinct := List.nodup_append.mpr ⟨weekdays.distinct, List.nodup_singleton day, fun other member last single same =>
    isNew (List.mem_singleton.mp single ▸ same ▸ member)⟩

@[ext]
theorem ext {first second : Weekdays} (same : first.days = second.days) : first = second := by
  cases first
  cases second
  simp only at same
  subst same
  rfl

end Weekdays

/-- No weekdays is no restriction; the empty set permits no day. -/
@[ext]
structure TimeWindow where
  ints : IntField → Option Int
  weekdays : Option Weekdays

def shownInt : Option Int → Json
  | none => .null
  | some value => .int value

def shownWeekdays : Option Weekdays → Json
  | none => .null
  | some weekdays => .array (weekdays.days.map .int)

/-- `TimeWindow.to_dict`, over `NEW_FIELDS`: every field, the unset ones as null. -/
def TimeWindow.toDict (timeWindow : TimeWindow) : Record :=
  intFields.map (fun field => (field.name, shownInt (timeWindow.ints field))) ++
    [(weekdaysField, shownWeekdays timeWindow.weekdays)]

structure ParsedTimeWindow where
  timeWindow : TimeWindow
  warnings : List String

/-! ## Reading -/

/-- What a config is refused for, with the path it stands at; the last is not a config error. -/
inductive Failure where
  | notObject (path : String)
  | notInteger (path : String)
  | negative (path : String) (value : Int)
  | negativeRepeat (path : String) (value : Int)
  | notArray (path : String) (value : Json)
  | notWhole (path : String) (item : Json)
  | notWeekday (path : String) (item : Int)
  | twice (path : String) (item : Int)
  | overflow

section Reading

variable (python : Python)

def optionalInt (value : Json) (path : String) : Except Failure (Option Int) :=
  if value = .null ∨ value = .string "" then .ok none
  else
    match python.int value with
    | .error .refused => .error (.notInteger path)
    | .error .overflow => .error .overflow
    | .ok number => .ok (some number)

/-- An item of a weekday list as a whole number; a Boolean is read as its text. -/
def weekdayNumber (item : Json) : Option Int :=
  match item with
  | .int value => some value
  | item => python.intOfText (strip (python.str item))

/-- The loop over a weekday list. -/
def parseWeekdayItems (path : String) : List Json → Weekdays → Except Failure Weekdays
  | [], parsed => .ok parsed
  | item :: rest, parsed =>
      match weekdayNumber python item with
      | none => .error (.notWhole path item)
      | some day =>
          if isNamed : day ∈ weekdayNames.map Prod.fst then
            if isNew : day ∉ parsed.days then parseWeekdayItems path rest (parsed.append day isNamed isNew)
            else .error (.twice path day)
          else .error (.notWeekday path day)

def parseWeekdays (value : Json) (path : String) : Except Failure (Option Weekdays) :=
  match value with
  | .null => .ok none
  | .string "" => .ok none
  | .array items => (parseWeekdayItems python path items Weekdays.empty).map some
  | value => .error (.notArray path value)

/-- A loop over named fields: a field that `source` states is read from it, with what the loop warns about. -/
def readFields (source : Record) (path : String → String) (warning : String → IntField → List String) :
    List (String × IntField) → ParsedTimeWindow → Except Failure ParsedTimeWindow
  | [], parsed => .ok parsed
  | (name, field) :: rest, parsed => do
      if has source name then
        let value ← optionalInt python (get source name) (path name)
        readFields source path warning rest
          ⟨⟨Function.update parsed.timeWindow.ints field value, parsed.timeWindow.weekdays⟩,
            parsed.warnings ++ warning name field⟩
      else readFields source path warning rest parsed

/-- The weekdays, where `source` states them. -/
def readWeekdays (source : Record) (path : String) (parsed : ParsedTimeWindow) : Except Failure ParsedTimeWindow := do
  if has source weekdaysField then
    let weekdays ← parseWeekdays python (get source weekdaysField) path
    return ⟨⟨parsed.timeWindow.ints, weekdays⟩, parsed.warnings⟩
  else return parsed

/-- Every integer field under its own name. -/
def currentFields : List (String × IntField) := intFields.map fun field => (field.name, field)

def windowPath (context name : String) : String := context ++ ".time_window." ++ name

def nothingRead : ParsedTimeWindow := ⟨⟨fun _ => none, none⟩, []⟩

/-- The caller's defaults, each read like the field it stands for. -/
def readDefaults (context : String) (defaults : Record) : Except Failure ParsedTimeWindow := do
  let parsed ← readFields python defaults (fun name => windowPath context name ++ ".default") (fun _ _ => [])
    currentFields nothingRead
  readWeekdays python defaults (windowPath context weekdaysField ++ ".default") parsed

/-- `_validate_non_negative_scalar`, and `_validate_non_negative` of one end. -/
def validateNonNegative (context : String) (timeWindow : TimeWindow) (field : IntField) : Except Failure Unit :=
  match timeWindow.ints field with
  | none => .ok ()
  | some value => if value < 0 then .error (.negative (windowPath context field.name) value) else .ok ()

def validateRepeatInterval (context : String) (timeWindow : TimeWindow) : Except Failure Unit :=
  match timeWindow.ints repeatInterval with
  | none => .ok ()
  | some value =>
      if value < 0 ∧ value ≠ manualOnly then .error (.negativeRepeat (windowPath context repeatInterval.name) value)
      else .ok ()

def boundFields : List IntField :=
  [fromYear, toYear, fromMonth, toMonth, fromDay, toDay, fromHour, toHour, fromMinute, toMinute]

def validate (context : String) (timeWindow : TimeWindow) : Except Failure Unit := do
  boundFields.forM (validateNonNegative context timeWindow)
  validateRepeatInterval context timeWindow
  validateNonNegative context timeWindow retryInterval
  validateNonNegative context timeWindow timeout

/-- `item.get("time_window") or {}`, when it is an object. -/
def rawTimeWindow (context : String) (item : Record) : Except Failure Record :=
  if truthy (get item "time_window") then
    match get item "time_window" with
    | .object entries => .ok entries
    | _ => .error (.notObject (context ++ ".time_window"))
  else .ok []

def topLevelWarning (context legacyName : String) (field : IntField) : String :=
  context ++ ": deprecated field " ++ legacyName ++ " used; use time_window." ++ field.name ++ "."

def timeWindowWarning (context legacyName : String) (field : IntField) : String :=
  context ++ ": deprecated field time_window." ++ legacyName ++ " used; use time_window." ++ field.name ++ "."

def parseTimeWindowConfig (item : Record) (context : String) (defaults : Record) : Except Failure ParsedTimeWindow := do
  let raw ← rawTimeWindow context item
  let parsed ← readDefaults python context defaults
  let parsed ← readFields python item (fun name => context ++ "." ++ name)
    (fun name field => [topLevelWarning context name field]) legacyTopLevelFields parsed
  let parsed ← readFields python raw (windowPath context)
    (fun name field => [timeWindowWarning context name field]) legacyTimeWindowFields parsed
  let parsed ← readFields python raw (windowPath context) (fun _ _ => []) currentFields parsed
  let parsed ← readWeekdays python raw (windowPath context weekdaysField) parsed
  validate context parsed.timeWindow
  return parsed

end Reading

/-! ## What a reader accepts -/

section Accepted

variable {python : Python}

variable {path : String}
variable {value : Json} {source : Record} {warning : String → IntField → List String}
  {fields : List (String × IntField)}

theorem optionalInt_path {read : Option Int} (ok : optionalInt python value path = .ok read) (other : String) :
    optionalInt python value other = .ok read := by
  unfold optionalInt at ok ⊢
  split at ok
  · rename_i unset
    rw [if_pos unset]
    exact ok
  · rename_i stated
    rw [if_neg stated]
    split at ok
    · cases ok
    · cases ok
    · exact ok

theorem optionalInt_shown (value : Option Int) (path : String) :
    optionalInt python (shownInt value) path = .ok value := by
  cases value with
  | none => rfl
  | some value =>
    have stated : ¬(shownInt (some value) = .null ∨ shownInt (some value) = .string "") := by simp [shownInt]
    rw [optionalInt, if_neg stated]
    rfl

theorem parseWeekdayItems_path {items : List Json} {parsed read : Weekdays}
    (ok : parseWeekdayItems python path items parsed = .ok read) (other : String) :
    parseWeekdayItems python other items parsed = .ok read := by
  induction items generalizing parsed with
  | nil => exact ok
  | cons item rest ih =>
    unfold parseWeekdayItems at ok ⊢
    split at ok
    · cases ok
    · split at ok
      · rename_i isNamed
        rw [dif_pos isNamed]
        split at ok
        · rename_i isNew
          rw [dif_pos isNew]
          exact ih ok
        · cases ok
      · cases ok

theorem parseWeekdays_path {read : Option Weekdays} (ok : parseWeekdays python value path = .ok read) (other : String) :
    parseWeekdays python value other = .ok read := by
  unfold parseWeekdays at ok ⊢
  split at ok
  · exact ok
  · exact ok
  · obtain ⟨weekdays, parsed, same⟩ := map_eq_ok ok
    simp only [parseWeekdayItems_path parsed other, Except.map, same]
  · cases ok

/-- The days of a set are read back one by one, each new among those before it. -/
theorem parseWeekdayItems_shown (path : String) (weekdays : Weekdays) (days : List Int) (parsed : Weekdays)
    (whole : weekdays.days = parsed.days ++ days) :
    parseWeekdayItems python path (days.map .int) parsed = .ok weekdays := by
  induction days generalizing parsed with
  | nil =>
    rw [List.append_nil] at whole
    exact congrArg Except.ok (Weekdays.ext whole.symm)
  | cons day rest ih =>
    have member : day ∈ weekdays.days := whole ▸ List.mem_append_right _ List.mem_cons_self
    have isNamed := weekdays.named day member
    have isNew : day ∉ parsed.days := by
      intro before
      have distinct := weekdays.distinct
      rw [whole, List.nodup_append] at distinct
      exact distinct.2.2 day before day List.mem_cons_self rfl
    rw [List.map_cons, parseWeekdayItems]
    simp only [weekdayNumber]
    rw [dif_pos isNamed, dif_pos isNew]
    refine ih (parsed.append day isNamed isNew) ?_
    rw [whole, Weekdays.append, List.append_assoc, List.singleton_append]

theorem parseWeekdays_shown (weekdays : Option Weekdays) (path : String) :
    parseWeekdays python (shownWeekdays weekdays) path = .ok weekdays := by
  cases weekdays with
  | none => rfl
  | some weekdays =>
    rw [shownWeekdays, parseWeekdays, parseWeekdayItems_shown path weekdays weekdays.days Weekdays.empty rfl]
    rfl

/-- A loop over fields that `source` does not state reads nothing and warns of nothing. -/
theorem readFields_absent {path : String → String} (absent : ∀ entry ∈ fields, has source entry.1 = false)
    (parsed : ParsedTimeWindow) : readFields python source path warning fields parsed = .ok parsed := by
  induction fields with
  | nil => rfl
  | cons entry rest ih =>
    have unstated := absent entry List.mem_cons_self
    rw [readFields, unstated, if_neg Bool.false_ne_true]
    exact ih fun other member => absent other (List.mem_cons_of_mem _ member)

/-- Such a loop ends whenever the stated fields can be read, whatever it warns and under whatever path. -/
theorem readFields_ok_iff {path : String → String} {parsed : ParsedTimeWindow} :
    (∃ read, readFields python source path warning fields parsed = .ok read) ↔
      ∀ entry ∈ fields, has source entry.1 = true →
        ∃ value, ∀ path, optionalInt python (get source entry.1) path = .ok value := by
  induction fields generalizing parsed with
  | nil => exact iff_of_true ⟨parsed, rfl⟩ fun entry member => absurd member List.not_mem_nil
  | cons entry rest ih =>
    obtain ⟨name, field⟩ := entry
    rw [readFields, List.forall_mem_cons]
    cases stated : has source name with
    | false =>
      rw [if_neg Bool.false_ne_true, ih]
      exact (and_iff_right fun unstated => absurd unstated Bool.false_ne_true).symm
    | true =>
      rw [if_pos rfl]
      constructor
      · rintro ⟨read, ok⟩
        obtain ⟨value, first, later⟩ := bind_eq_ok ok
        exact ⟨fun _ => ⟨value, optionalInt_path first⟩, ih.mp ⟨read, later⟩⟩
      · rintro ⟨first, later⟩
        obtain ⟨value, reads⟩ := first rfl
        rw [reads]
        exact ih.mpr later

end Accepted

/-! ## The written window -/

section Written

variable {python : Python} {timeWindow : TimeWindow}

theorem has_toDict (field : IntField) : has timeWindow.toDict field.name = true := by
  cases field <;> rfl

theorem get_toDict (field : IntField) : get timeWindow.toDict field.name = shownInt (timeWindow.ints field) := by
  cases field <;> rfl

theorem has_toDict_weekdays : has timeWindow.toDict weekdaysField = true := rfl

theorem get_toDict_weekdays : get timeWindow.toDict weekdaysField = shownWeekdays timeWindow.weekdays := rfl

theorem mem_intFields (field : IntField) : field ∈ intFields := by
  cases field <;> decide

/-- A written window states no older field. -/
theorem has_toDict_legacy : ∀ entry ∈ legacyTimeWindowFields, has timeWindow.toDict entry.1 = false := by
  intro entry member
  simp only [legacyTimeWindowFields, List.mem_cons, List.not_mem_nil, or_false] at member
  rcases member with rfl | rfl | rfl | rfl <;> rfl

/-- The loop over a written window takes each of its fields from it. -/
theorem readFields_toDict (path : String → String) (fields : List IntField) (parsed : ParsedTimeWindow) :
    readFields python timeWindow.toDict path (fun _ _ => []) (fields.map fun field => (field.name, field)) parsed =
      .ok ⟨⟨fun field => if field ∈ fields then timeWindow.ints field else parsed.timeWindow.ints field,
        parsed.timeWindow.weekdays⟩, parsed.warnings⟩ := by
  induction fields generalizing parsed with
  | nil => rfl
  | cons first rest ih =>
    rw [List.map_cons, readFields, has_toDict, if_pos rfl, get_toDict, optionalInt_shown]
    refine (ih _).trans ?_
    rw [List.append_nil]
    congr 3
    funext field
    by_cases later : field ∈ rest
    · rw [if_pos later, if_pos (List.mem_cons_of_mem _ later)]
    · rw [if_neg later]
      change Function.update parsed.timeWindow.ints first (timeWindow.ints first) field = _
      by_cases here : field = first
      · rw [here, Function.update_self, if_pos List.mem_cons_self]
      · rw [Function.update_of_ne here, if_neg fun member => (List.mem_cons.mp member).elim here later]

theorem readWeekdays_toDict (path : String) (parsed : ParsedTimeWindow) :
    readWeekdays python timeWindow.toDict path parsed =
      .ok ⟨⟨parsed.timeWindow.ints, timeWindow.weekdays⟩, parsed.warnings⟩ := by
  rw [readWeekdays, has_toDict_weekdays, if_pos rfl, get_toDict_weekdays, parseWeekdays_shown]
  rfl

end Written

/-! ## Validation -/

section Valid

variable {context : String} {timeWindow : TimeWindow}

theorem validateNonNegative_ok_iff {field : IntField} :
    validateNonNegative context timeWindow field = .ok () ↔
      ∀ value, timeWindow.ints field = some value → 0 ≤ value := by
  unfold validateNonNegative
  cases timeWindow.ints field with
  | none => simp
  | some value =>
    by_cases negative : value < 0
    · simp [negative]
    · simp [negative, not_lt.mp negative]

theorem validateRepeatInterval_ok_iff :
    validateRepeatInterval context timeWindow = .ok () ↔
      ∀ value, timeWindow.ints repeatInterval = some value → 0 ≤ value ∨ value = manualOnly := by
  unfold validateRepeatInterval
  cases timeWindow.ints repeatInterval with
  | none => simp
  | some value =>
    by_cases refused : value < 0 ∧ value ≠ manualOnly
    · simp [refused]
    · simp only [if_neg refused]
      refine iff_of_true trivial fun other same => ?_
      rw [← Option.some.inj same]
      rw [not_and_or, not_lt, not_not] at refused
      exact refused

/-- The values a window may hold: no negative bound, and `-1` alone below zero as an interval. -/
structure Valid (timeWindow : TimeWindow) : Prop where
  bounds : ∀ field ∈ boundFields, ∀ value, timeWindow.ints field = some value → 0 ≤ value
  repeats : ∀ value, timeWindow.ints repeatInterval = some value → 0 ≤ value ∨ value = manualOnly
  retries : ∀ value, timeWindow.ints retryInterval = some value → 0 ≤ value
  ends : ∀ value, timeWindow.ints timeout = some value → 0 ≤ value

/-- Validation looks at the values alone; the context only names them. -/
theorem validate_ok_iff : validate context timeWindow = .ok () ↔ Valid timeWindow := by
  unfold validate
  constructor
  · intro ok
    obtain ⟨_, bounds, later⟩ := bind_eq_ok ok
    obtain ⟨_, repeats, later⟩ := bind_eq_ok later
    obtain ⟨_, retries, ends⟩ := bind_eq_ok later
    exact ⟨fun field member => validateNonNegative_ok_iff.mp (forM_ok bounds field member),
      validateRepeatInterval_ok_iff.mp repeats, validateNonNegative_ok_iff.mp retries,
      validateNonNegative_ok_iff.mp ends⟩
  · intro valid
    have bounds : boundFields.forM (validateNonNegative context timeWindow) = .ok () :=
      forM_ok_of_forall fun field member => validateNonNegative_ok_iff.mpr (valid.bounds field member)
    rw [bounds, validateRepeatInterval_ok_iff.mpr valid.repeats, validateNonNegative_ok_iff.mpr valid.retries,
      validateNonNegative_ok_iff.mpr valid.ends]
    rfl

end Valid

/-! ## The round trip -/

section RoundTrip

variable {python : Python} {item record defaults others : Record} {context : String} {parsed : ParsedTimeWindow}

/-- Every field the defaults state can be read. -/
structure Readable (python : Python) (defaults : Record) : Prop where
  ints : ∀ field : IntField, has defaults field.name = true →
    ∃ value, ∀ path, optionalInt python (get defaults field.name) path = .ok value
  weekdays : has defaults weekdaysField = true →
    ∃ value, ∀ path, parseWeekdays python (get defaults weekdaysField) path = .ok value

theorem readDefaults_ok_iff : (∃ read, readDefaults python context defaults = .ok read) ↔ Readable python defaults := by
  have ints_iff : ∀ {path : String → String},
      (∃ read, readFields python defaults path (fun _ _ => []) currentFields nothingRead = .ok read) ↔ _ :=
    readFields_ok_iff
  unfold readDefaults
  constructor
  · rintro ⟨read, ok⟩
    obtain ⟨front, fields, days⟩ := bind_eq_ok ok
    refine ⟨fun field => ints_iff.mp ⟨front, fields⟩ (field.name, field)
      (List.mem_map_of_mem (mem_intFields field)), fun stated => ?_⟩
    rw [readWeekdays, if_pos stated] at days
    obtain ⟨value, parsed, _⟩ := bind_eq_ok days
    exact ⟨value, parseWeekdays_path parsed⟩
  · intro readable
    have all : ∀ entry ∈ currentFields, has defaults entry.1 = true →
        ∃ value, ∀ path, optionalInt python (get defaults entry.1) path = .ok value := by
      intro entry member
      obtain ⟨field, _, rfl⟩ := List.mem_map.mp member
      exact readable.ints field
    obtain ⟨front, fields⟩ := ints_iff.mpr all
    rw [fields]
    cases stated : has defaults weekdaysField with
    | false =>
      refine ⟨front, ?_⟩
      change readWeekdays python defaults _ front = _
      rw [readWeekdays, stated, if_neg Bool.false_ne_true]
      rfl
    | true =>
      obtain ⟨value, reads⟩ := readable.weekdays stated
      refine ⟨⟨⟨front.timeWindow.ints, value⟩, front.warnings⟩, ?_⟩
      change readWeekdays python defaults _ front = _
      rw [readWeekdays, stated, if_pos rfl, reads]
      rfl

/-- The defaults warn of nothing. -/
theorem readDefaults_warnings {read : ParsedTimeWindow} (ok : readDefaults python context defaults = .ok read) :
    read.warnings = [] := by
  have quiet : ∀ {path : String → String} {fields : List (String × IntField)} {before after : ParsedTimeWindow},
      readFields python defaults path (fun _ _ => []) fields before = .ok after →
        after.warnings = before.warnings := by
    intro path fields
    induction fields with
    | nil =>
      intro before after same
      cases same
      rfl
    | cons entry rest ih =>
      intro before after same
      rw [readFields] at same
      split at same
      · obtain ⟨value, _, later⟩ := bind_eq_ok same
        rw [ih later, List.append_nil]
      · exact ih same
  obtain ⟨front, fields, days⟩ := bind_eq_ok ok
  have front_quiet : front.warnings = [] := quiet fields
  rw [readWeekdays] at days
  split at days
  · obtain ⟨value, _, returned⟩ := bind_eq_ok days
    cases returned
    exact front_quiet
  · cases days
    exact front_quiet

/-- What an accepted record holds: defaults that were read, and a window with allowed values. -/
theorem accepted_valid (accepted : parseTimeWindowConfig python item context defaults = .ok parsed) :
    Readable python defaults ∧ Valid parsed.timeWindow := by
  obtain ⟨raw, _, later⟩ := bind_eq_ok accepted
  obtain ⟨read, fromDefaults, later⟩ := bind_eq_ok later
  iterate 3 obtain ⟨_, _, later⟩ := bind_eq_ok later
  obtain ⟨whole, _, later⟩ := bind_eq_ok later
  obtain ⟨_, valid, returned⟩ := bind_eq_ok later
  cases returned
  exact ⟨readDefaults_ok_iff.mp ⟨read, fromDefaults⟩, validate_ok_iff.mp valid⟩

theorem parse_written {timeWindow : TimeWindow} (valid : Valid timeWindow)
    (stated : get record "time_window" = .object timeWindow.toDict)
    (current : ∀ entry ∈ legacyTopLevelFields, has record entry.1 = false) :
    parseTimeWindowConfig python record context others =
      (readDefaults python context others).map fun _ => ⟨timeWindow, []⟩ := by
  have raw : rawTimeWindow context record = .ok timeWindow.toDict := by
    rw [rawTimeWindow, stated]
    rfl
  unfold parseTimeWindowConfig
  rw [raw]
  cases ok : readDefaults python context others with
  | error failure => rfl
  | ok read =>
    have whole : (⟨fun field => if field ∈ intFields then timeWindow.ints field else read.timeWindow.ints field,
        timeWindow.weekdays⟩ : TimeWindow) = timeWindow := by
      refine TimeWindow.ext (funext fun field => ?_) rfl
      exact if_pos (mem_intFields field)
    simp only [bind, Except.bind, readFields_absent current, readFields_absent has_toDict_legacy, currentFields,
      readFields_toDict, readWeekdays_toDict, whole, validate_ok_iff.mpr valid, readDefaults_warnings ok]
    rfl

/-- A window that was accepted is read back from its written form, with the same or other defaults that can be read. -/
theorem window_round_trip (python : Python) (item : Record) (context : String) (defaults : Record)
    (parsed : ParsedTimeWindow) (accepted : parseTimeWindowConfig python item context defaults = .ok parsed)
    (record : Record) (stated : get record "time_window" = .object parsed.timeWindow.toDict)
    (current : ∀ entry ∈ legacyTopLevelFields, has record entry.1 = false) (place : String) :
    parseTimeWindowConfig python record place defaults = .ok ⟨parsed.timeWindow, []⟩ ∧
      ∀ others, (Readable python others →
          parseTimeWindowConfig python record place others = .ok ⟨parsed.timeWindow, []⟩) ∧
        (¬Readable python others →
          ∃ failure, parseTimeWindowConfig python record place others = .error failure) := by
  obtain ⟨readable, valid⟩ := accepted_valid accepted
  have again : ∀ others, Readable python others →
      parseTimeWindowConfig python record place others = .ok ⟨parsed.timeWindow, []⟩ := by
    intro others othersReadable
    obtain ⟨read, ok⟩ := readDefaults_ok_iff.mpr othersReadable
    rw [parse_written valid stated current, ok]
    rfl
  refine ⟨again defaults readable, fun others => ⟨again others, fun unreadable => ?_⟩⟩
  rw [parse_written valid stated current]
  cases ok : readDefaults python place others with
  | error failure => exact ⟨failure, rfl⟩
  | ok read => exact absurd (readDefaults_ok_iff.mp ⟨read, ok⟩) unreadable

/-- An older top-level timeout, a null hour over an older name's value, and no weekday, all read back. -/
theorem window_round_trip_mixed : ∃ parsed,
    parseTimeWindowConfig asciiPython
        [("timeout_seconds", .int 900),
          ("time_window", .object [("hour_from", .int 22), ("from_hour", .null), ("weekdays", .array [])])]
        "nightly" [("from_hour", .int 0), ("retry_interval", .int 60)] = .ok parsed ∧
      (parsed.timeWindow.ints timeout = some 900 ∧ parsed.timeWindow.ints fromHour = none ∧
        parsed.timeWindow.weekdays = some Weekdays.empty) ∧
      parseTimeWindowConfig asciiPython [("time_window", .object parsed.timeWindow.toDict)] "nightly"
        [("from_hour", .int 0), ("retry_interval", .int 60)] = .ok ⟨parsed.timeWindow, []⟩ := by
  obtain ⟨parsed, accepted, fields⟩ : ∃ parsed,
      parseTimeWindowConfig asciiPython
          [("timeout_seconds", .int 900),
            ("time_window", .object [("hour_from", .int 22), ("from_hour", .null), ("weekdays", .array [])])]
          "nightly" [("from_hour", .int 0), ("retry_interval", .int 60)] = .ok parsed ∧
        parsed.timeWindow.ints timeout = some 900 ∧ parsed.timeWindow.ints fromHour = none ∧
          parsed.timeWindow.weekdays = some Weekdays.empty := ⟨_, rfl, rfl, rfl, rfl⟩
  have current : ∀ entry ∈ legacyTopLevelFields,
      has [("time_window", .object parsed.timeWindow.toDict)] entry.1 = false := by
    simp [legacyTopLevelFields, has]
  exact ⟨parsed, accepted, fields,
    (window_round_trip asciiPython _ "nightly" _ parsed accepted _ rfl current "nightly").1⟩

/-- A default that is no integer is refused although the window states its field. -/
theorem unread_default_is_refused :
    (∃ parsed, parseTimeWindowConfig asciiPython [] "nightly" [] = .ok parsed ∧
      get [("time_window", .object parsed.timeWindow.toDict)] "time_window" = .object parsed.timeWindow.toDict ∧
      parseTimeWindowConfig asciiPython [("time_window", .object parsed.timeWindow.toDict)] "nightly"
        [("retry_interval", .string "soon")] =
          .error (.notInteger "nightly.time_window.retry_interval.default")) := by
  refine ⟨_, rfl, rfl, ?_⟩
  rw [parse_written ((@validate_ok_iff "nightly" _).mp rfl) rfl (by decide)]
  rfl

end RoundTrip

end DbaBrain.Lib.TimeWindows
