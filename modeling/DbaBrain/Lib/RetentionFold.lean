import DbaBrain.Lib.CleanupRetention

/-!
# Moving the jobs' retentions onto their entry

An entry's jobs each stated a window of their own; the fold states one
retention on the entry.  It goes through a mapping by job name and a mapping by
file type, and in both the last job wins: no window is shortened exactly when,
for every type, the last job that writes it, read under its name, has the
longest window.
-/

namespace DbaBrain.Lib.RetentionFold

open DbaBrain.Foundation.Execution (bind_eq_ok)
open DbaBrain.Foundation DbaBrain.Foundation.Text DbaBrain.Foundation.PyValues
open DbaBrain.Lib.CleanupRetention

/-! ## The fold -/

/-- Why an entry is left as it is, with the path it stands at. -/
inductive Conflict where
  | bothState (path : String)
  | objectAlready (path : String)
  | refused (failure : Failure)
  | someState (path : String)
  | unknownTypes (path : String) (script level : Json)

/-- The exceptions that leave the fold. -/
inductive Raised where
  | attributeError
  | typeError
  | overflowError

inductive Stop where
  | conflict (conflict : Conflict)
  | raised (error : Raised)

/-- What a change says of the windows: the same as every job's, or the shortest one's that cut every type. -/
inductive Effect where
  | unchanged
  | changes (shortest : Int) (values : Dict String Int)

structure Change where
  path : String
  value : Json
  effect : Effect

/-- The entry the fold leaves, and what it answers. -/
structure Folded where
  entry : Record
  changes : List Change
  conflicts : List Conflict

def retentionFields : List String := fieldName :: legacyFields.map Prod.fst

def statesIt (record : Record) : Bool := retentionFields.any fun name => !isNull (get record name)

def retentionSource (job entry : Record) : Record :=
  if statesIt job || !statesIt entry then job
  else (retentionFields.filter fun name => !isNull (get entry name)).map fun name => (name, get entry name)

def isObject : Json → Bool
  | .object _ => true
  | _ => false

/-- `[job for job in entry.get("jobs") or [] if isinstance(job, dict)]`. -/
def jobsOf (entry : Record) : Except Raised (List Record) :=
  match get entry "jobs" with
  | .array items => .ok (items.filterMap fun item => match item with
      | .object job => some job
      | _ => none)
  | .string _ => .ok []
  | .object _ => .ok []
  | other => if truthy other then .error .typeError else .ok []

/-- `script.replace("\\", "/").rsplit("/", 1)[-1]`. -/
def scriptName (script : String) : String :=
  String.ofList ((replaceChar '\\' '/' script).toList.reverse.takeWhile (· ≠ '/')).reverse

section Fold

variable (python : Python)

/-- `str(value or fallback)`. -/
def textOr (value : Json) (fallback : String) : String := if truthy value then python.str value else fallback

def jobName (job : Record) : String := textOr python (get job "job") "?"

def jobPath (path : String) (job : Record) : String := path ++ "." ++ python.str (get job "job")

/-- `(job.get("env") or {}).get("BACKUP_LEVEL")`. -/
def backupLevel (job : Record) : Except Raised Json :=
  match get job "env" with
  | .object env => .ok (get env "BACKUP_LEVEL")
  | other => if truthy other then .error .attributeError else .ok .null

/-- `types_a_job_writes`: none where the job's shape is not known. -/
def typesAJobWrites (engine : String) (job : Record) : Except Raised (Option (List String)) := do
  let kind := engineOf python engine
  let level := python.lower (strip (textOr python (← backupLevel job) ""))
  let script := python.lower (scriptName (textOr python (get job "script") ""))
  return typesOf kind level script
where
  typesOf (kind level script : String) : Option (List String) :=
    if kind = "sqlserver" ∧ level ∈ ["full", "diff", "log"] then some [python.upper level]
    else if kind = "postgresql" then
      if contains "archive_wal" script then some ["WAL"]
      else if contains "basebackup" script ∧ level = "full" then some ["FULL_BASE", "INCR_BASE", "MANIFEST"]
      else if contains "basebackup" script ∧ level = "incr" then some []
      else none
    else if kind = "oracle" then
      if contains "archivelog" script then some ["ARCHIVELOG"]
      else if contains "rman_database" script ∧ level = "0" then some ["RMAN_L0", "RMAN_L1", "CONTROLFILE", "SPFILE"]
      else if contains "rman_database" script ∧ level = "1" then some []
      else none
    else none

/-- Each job's window under its name; a later job of the name replaces an earlier one. -/
def jobValues (path : String) (stating : List Record) : Except Failure (Dict String Int) :=
  stating.foldlM (fun values job => do
    let seconds ← parse python job (jobPath python path job) true
    return values.set (jobName python job) seconds) .empty

/-- The windows of the types one job writes, put over those before it. -/
def addTypes (engine path : String) (values : Dict String Int) (windows : Dict String (Option Int)) (job : Record) :
    Except Stop (Dict String (Option Int)) :=
  match typesAJobWrites python engine job with
  | .error error => .error (.raised error)
  | .ok none =>
      .error (.conflict (.unknownTypes (jobPath python path job) (get job "script")
        (match backupLevel job with
          | .ok level => level
          | .error _ => .null)))
  | .ok (some kinds) =>
      .ok (windows.update (kinds.map fun kind => (kind, values.get? (jobName python job))))

/-- The value the entry is given, and what it says of the windows. -/
def foldValue (entry : Record) (path : String) (jobs stating : List Record) : Except Stop (Json × Effect) :=
  if statesIt entry then .error (.conflict (.bothState path))
  else if stating.any fun job => isObject (get job fieldName) then .error (.conflict (.objectAlready path))
  else
    match jobValues python path stating with
    | .error .overflow => .error (.raised .overflowError)
    | .error failure => .error (.conflict (.refused failure))
    | .ok values =>
        let seconds := values.entries.map Prod.snd
        if stating.length ≠ jobs.length then .error (.conflict (.someState path))
        else if seconds.dedup.length = 1 then .ok (.int (seconds.head?.getD 0), .unchanged)
        else
          match stating.foldlM (addTypes python (textOr python (get entry "db_type") "") path values) .empty with
          | .error stop => .error stop
          | .ok windows =>
              .ok (Retention.asConfig ⟨windows, some ((seconds.max?).getD 0), false⟩,
                .changes ((seconds.min?).getD 0) values)

def withoutRetention (job : Record) : Record := retentionFields.foldl remove job

/-- The entry with its retention stated once. -/
def rewritten (entry : Record) (value : Json) : Record :=
  match get entry "jobs" with
  | .array items =>
      PyValues.set (PyValues.set entry fieldName value) "jobs" (.array (items.map fun item => match item with
        | .object job => .object (withoutRetention job)
        | other => other))
  | _ => PyValues.set entry fieldName value

def foldEntry (entry : Record) (path : String) : Except Raised Folded :=
  match jobsOf entry with
  | .error error => .error error
  | .ok jobs =>
      let stating := jobs.filter statesIt
      if stating = [] then .ok ⟨entry, [], []⟩
      else
        match foldValue python entry path jobs stating with
        | .error (.raised error) => .error error
        | .error (.conflict conflict) => .ok ⟨entry, [], [conflict]⟩
        | .ok (value, effect) => .ok ⟨rewritten entry value, [⟨path, value, effect⟩], []⟩

end Fold

/-! ## What the mappings hold -/

section Spec

variable {python : Python}

/-- The window a job states. -/
def secondsOf (python : Python) (path : String) (job : Record) : Option Int :=
  (parse python job (jobPath python path job) true).toOption

def lastNamed (python : Python) (jobs : List Record) (name : String) : Option Record :=
  jobs.reverse.find? fun job => jobName python job = name

/-- A job may write a type; one whose shape is not known may write any. -/
def writes (python : Python) (engine kind : String) (job : Record) : Bool :=
  match typesAJobWrites python engine job with
  | .ok (some kinds) => kind ∈ kinds
  | _ => true

/-- The window that stands for a type: of the last job that writes it, read under its name. -/
def heldWindow (python : Python) (engine path : String) (jobs : List Record) (kind : String) : Option Int :=
  (jobs.reverse.find? (writes python engine kind)).bind fun last =>
    (lastNamed python jobs (jobName python last)).bind (secondsOf python path)

structure ValuesOf (python : Python) (path : String) (jobs : List Record) (values : Dict String Int) : Prop where
  stated : ∀ job ∈ jobs, (secondsOf python path job).isSome = true
  held : ∀ name, values.get? name = (lastNamed python jobs name).bind (secondsOf python path)
  positive : ∀ entry ∈ values.entries, 0 ≤ entry.2

variable {path : String} {jobs : List Record} {values : Dict String Int} {engine : String} {job entry : Record}

theorem jobValues_spec (read : jobValues python path jobs = .ok values) : ValuesOf python path jobs values := by
  induction jobs using List.reverseRecOn generalizing values with
  | nil =>
    cases read
    refine ⟨?_, fun _ => rfl, ?_⟩
    · intro job member
      cases member
    · intro entry member
      cases member
  | append_singleton jobs last ih =>
    unfold jobValues at read
    rw [List.foldlM_append] at read
    obtain ⟨before, first, step⟩ := bind_eq_ok read
    rw [List.foldlM_cons] at step
    obtain ⟨after, step, done⟩ := bind_eq_ok step
    obtain ⟨seconds, parsed, same⟩ := bind_eq_ok step
    cases same
    cases done
    obtain ⟨stated, held, positive⟩ := ih first
    have own : secondsOf python path last = some seconds := by
      unfold secondsOf
      rw [parsed]
      rfl
    refine ⟨?_, ?_, ?_⟩
    · intro job member
      rcases List.mem_append.mp member with earlier | this
      · exact stated job earlier
      · rw [List.mem_singleton.mp this, own]
        rfl
    · intro name
      rw [Dict.get?_set]
      unfold lastNamed at held ⊢
      rw [List.reverse_append, List.reverse_singleton, List.singleton_append, List.find?_cons]
      by_cases same : jobName python last = name
      · rw [if_pos same.symm, decide_eq_true same]
        exact own.symm
      · rw [if_neg (Ne.symm same), decide_eq_false same]
        exact held name
    · intro entry member
      rcases Dict.mem_of_mem_set member with earlier | rfl
      · exact positive entry earlier
      · exact parse_nonneg parsed

variable {kinds : List String} {kind : String} {value : Json}

theorem get?_update_map (dict : Dict String (Option Int)) (window : Option Int) (kind : String) :
    (dict.update (kinds.map fun kind => (kind, window))).get? kind =
      if kind ∈ kinds then some window else dict.get? kind := by
  induction kinds generalizing dict with
  | nil => rfl
  | cons first rest ih =>
    rw [List.map_cons, Dict.update, List.foldl_cons, ← Dict.update, ih, Dict.get?_set]
    by_cases later : kind ∈ rest
    · simp [later]
    · by_cases here : kind = first
      · simp [here]
      · simp [later, here]

theorem typesAJobWrites_allowed (read : typesAJobWrites python engine job = .ok (some kinds)) (member : kind ∈ kinds) :
    kind ∈ allowedTypes python engine := by
  unfold typesAJobWrites at read
  obtain ⟨level, -, read⟩ := bind_eq_ok read
  have types := Except.ok.inj read
  unfold typesAJobWrites.typesOf at types
  unfold allowedTypes
  split at types
  · rename_i sqlserver
    cases types
    obtain ⟨engine, named⟩ := sqlserver
    have upper : ∀ level ∈ ["full", "diff", "log"], isAscii level = true ∧ asciiUpper level ∈ ["FULL", "DIFF", "LOG", "CERT"] := by
      decide
    obtain ⟨ascii, type⟩ := upper _ named
    rw [List.mem_singleton.mp member, engine, python.upper_ascii _ ascii]
    exact type
  · split at types
    · rename_i engine
      rw [engine]
      have known : ∀ kinds ∈ [["WAL"], ["FULL_BASE", "INCR_BASE", "MANIFEST"], []], ∀ kind ∈ kinds,
          kind ∈ (engineFileTypes.lookup "postgresql").getD allFileTypes := by decide
      split at types
      · cases types
        exact known _ (by simp) kind member
      · split at types
        · cases types
          exact known _ (by simp) kind member
        · split at types
          · cases types
            cases member
          · cases types
    · split at types
      · rename_i engine
        rw [engine]
        have known : ∀ kinds ∈ [["ARCHIVELOG"], ["RMAN_L0", "RMAN_L1", "CONTROLFILE", "SPFILE"], []], ∀ kind ∈ kinds,
            kind ∈ (engineFileTypes.lookup "oracle").getD allFileTypes := by decide
        split at types
        · cases types
          exact known _ (by simp) kind member
        · split at types
          · cases types
            exact known _ (by simp) kind member
          · split at types
            · cases types
              cases member
            · cases types
      · cases types

/-- What the windows by type hold after the jobs. -/
structure WindowsOf (python : Python) (engine : String) (jobs : List Record) (values : Dict String Int)
    (windows : Dict String (Option Int)) : Prop where
  known : ∀ job ∈ jobs, ∃ kinds, typesAJobWrites python engine job = .ok (some kinds)
  held : ∀ kind, windows.get? kind =
    (jobs.reverse.find? (writes python engine kind)).map fun job => values.get? (jobName python job)
  types : ∀ entry ∈ windows.entries, entry.1 ∈ allowedTypes python engine
  stated : ∀ entry ∈ windows.entries, ∃ job ∈ jobs, entry.2 = values.get? (jobName python job)

theorem addTypes_spec {windows : Dict String (Option Int)}
    (ran : jobs.foldlM (addTypes python engine path values) .empty = .ok windows) :
    WindowsOf python engine jobs values windows := by
  induction jobs using List.reverseRecOn generalizing windows with
  | nil =>
    cases ran
    refine ⟨?_, fun _ => rfl, ?_, ?_⟩
    · intro job member
      cases member
    · intro entry member
      cases member
    · intro entry member
      cases member
  | append_singleton jobs last ih =>
    rw [List.foldlM_append] at ran
    obtain ⟨before, first, step⟩ := bind_eq_ok ran
    rw [List.foldlM_cons] at step
    obtain ⟨after, step, done⟩ := bind_eq_ok step
    cases done
    obtain ⟨known, held, types, stated⟩ := ih first
    unfold addTypes at step
    split at step
    · cases step
    · cases step
    · rename_i kinds read
      cases step
      refine ⟨?_, ?_, ?_, ?_⟩
      · intro job member
        rcases List.mem_append.mp member with earlier | this
        · exact known job earlier
        · exact ⟨kinds, List.mem_singleton.mp this ▸ read⟩
      · intro kind
        rw [get?_update_map, List.reverse_append, List.reverse_singleton, List.singleton_append, List.find?_cons]
        have own : writes python engine kind last = decide (kind ∈ kinds) := by
          unfold writes
          rw [read]
        rw [own]
        by_cases among : kind ∈ kinds
        · rw [if_pos among, decide_eq_true among]
          rfl
        · rw [if_neg among, decide_eq_false among]
          exact held kind
      · intro entry member
        rcases Dict.mem_of_mem_update member with earlier | added
        · exact types entry earlier
        · obtain ⟨kind, among, rfl⟩ := List.mem_map.mp added
          exact typesAJobWrites_allowed read among
      · intro entry member
        rcases Dict.mem_of_mem_update member with earlier | added
        · obtain ⟨job, there, same⟩ := stated entry earlier
          exact ⟨job, List.mem_append_left _ there, same⟩
        · obtain ⟨kind, among, rfl⟩ := List.mem_map.mp added
          exact ⟨last, List.mem_append_right _ (List.mem_singleton_self _), rfl⟩

/-! ## What the fold states -/

theorem heldWindow_of_writes (read : ValuesOf python path jobs values) (member : job ∈ jobs)
    (written : writes python engine kind job = true) :
    ∃ last held, jobs.reverse.find? (writes python engine kind) = some last ∧
      values.get? (jobName python last) = some held ∧ heldWindow python engine path jobs kind = some held := by
  obtain ⟨last, found⟩ : ∃ last, jobs.reverse.find? (writes python engine kind) = some last := by
    rw [← Option.isSome_iff_exists, List.find?_isSome]
    exact ⟨job, List.mem_reverse.mpr member, written⟩
  have inJobs : last ∈ jobs := List.mem_reverse.mp (List.mem_of_find?_eq_some found)
  obtain ⟨named, own⟩ : ∃ named, lastNamed python jobs (jobName python last) = some named := by
    unfold lastNamed
    rw [← Option.isSome_iff_exists, List.find?_isSome]
    exact ⟨last, List.mem_reverse.mpr inJobs, decide_eq_true rfl⟩
  have namedIn : named ∈ jobs := List.mem_reverse.mp (List.mem_of_find?_eq_some own)
  obtain ⟨held, seconds⟩ := Option.isSome_iff_exists.mp (read.stated named namedIn)
  refine ⟨last, held, found, ?_, ?_⟩
  · rw [read.held, own, Option.bind_some, seconds]
  · unfold heldWindow
    rw [found, Option.bind_some, own, Option.bind_some, seconds]

theorem get?_nonneg (read : ValuesOf python path jobs values) (name : String) : NonNegative (values.get? name) := by
  intro seconds found
  exact read.positive _ (Dict.get?_eq_some_iff.mp found)

/-- The value the fold gives is a retention's, and a type that is written has the window that stands for it. -/
theorem foldValue_spec {stating : List Record} {effect : Effect}
    (folded : foldValue python entry path jobs stating = .ok (value, effect)) :
    ∃ retention, Accepted python (textOr python (get entry "db_type") "") retention ∧ value = retention.asConfig ∧
      ∀ kind ∈ allFileTypes, ∀ job ∈ stating, writes python (textOr python (get entry "db_type") "") kind job = true →
        ∃ held, heldWindow python (textOr python (get entry "db_type") "") path stating kind = some held ∧
          retention.windowFor python kind = some held := by
  generalize engineEq : textOr python (get entry "db_type") "" = engine at *
  unfold foldValue at folded
  rw [engineEq] at folded
  split at folded
  · cases folded
  split at folded
  · cases folded
  split at folded
  · cases folded
  · cases folded
  rename_i values read
  have valued := jobValues_spec read
  dsimp only at folded
  split at folded
  · cases folded
  split at folded
  · rename_i one
    cases folded
    obtain ⟨seconds, only⟩ := List.length_eq_one_iff.mp one
    have every : ∀ other ∈ values.entries.map Prod.snd, other = seconds := by
      intro other member
      rw [← List.mem_dedup, only] at member
      exact List.mem_singleton.mp member
    have there : seconds ∈ values.entries.map Prod.snd := by
      rw [← List.mem_dedup, only]
      exact List.mem_singleton_self _
    have first : (values.entries.map Prod.snd).head?.getD 0 = seconds := by
      cases split : values.entries.map Prod.snd with
      | nil =>
        rw [split] at there
        cases there
      | cons head rest => exact every head (split ▸ List.mem_cons_self)
    have positive : 0 ≤ seconds := by
      obtain ⟨held, inValues, rfl⟩ := List.mem_map.mp there
      exact valued.positive held inValues
    rw [first]
    refine ⟨⟨.empty, some seconds, true⟩, .uniform positive, rfl, ?_⟩
    intro kind _ job member written
    obtain ⟨last, held, -, named, window⟩ := heldWindow_of_writes valued member written
    have same := every held (List.mem_map_of_mem (Dict.get?_eq_some_iff.mp named))
    refine ⟨held, window, ?_⟩
    rw [same]
    unfold Retention.windowFor
    simp
  · split at folded
    · cases folded
    · rename_i windows ran
      cases folded
      obtain ⟨known, held, types, stated⟩ := addTypes_spec ran
      have read : ReadOf python engine ⟨windows, some (((values.entries.map Prod.snd).max?).getD 0), true⟩ := by
        refine ⟨types, ?_, ?_⟩
        · intro entry member
          obtain ⟨job, -, same⟩ := stated entry member
          rw [same]
          exact get?_nonneg valued _
        · intro seconds same
          rw [← Option.some.inj same]
          cases most : (values.entries.map Prod.snd).max? with
          | none => exact le_refl 0
          | some greatest =>
            obtain ⟨entry, inValues, rfl⟩ := List.mem_map.mp (List.max?_mem most)
            exact valued.positive entry inValues
      refine ⟨_, .object read, rfl, ?_⟩
      intro kind type job member written
      obtain ⟨last, seconds, found, named, window⟩ := heldWindow_of_writes valued member written
      obtain ⟨stripped, -, upper⟩ := @fileType_spelling python kind type
      have here : windows.get? kind = some (some seconds) := by
        rw [held, found, Option.map_some, named]
      refine ⟨seconds, window, ?_⟩
      unfold Retention.windowFor
      rw [stripped, upper]
      dsimp only
      rw [here]

/-! ## No window is shortened -/

/-- The window is at least so many seconds; a kept one is longer than any. -/
def AtLeast (window : Option Int) (seconds : Int) : Prop := ∀ held, window = some held → seconds ≤ held

/-- A conflict leaves the entry alone; a rewritten entry keeps every type as long as each job that writes it did. -/
structure FoldKeeps (python : Python) (entry : Record) (path : String) (stating : List Record) (folded : Folded) :
    Prop where
  conflict : folded.conflicts ≠ [] → folded.entry = entry
  change : folded.changes ≠ [] → ∃ retention,
    parsePerType python folded.entry path (textOr python (get entry "db_type") "") true = .ok retention ∧
    (∀ jobs, jobsOf folded.entry = .ok jobs → ∀ job ∈ jobs,
      parsePerType python (retentionSource job folded.entry) path (textOr python (get entry "db_type") "") true =
        .ok retention) ∧
    ∀ kind ∈ allFileTypes, ∀ job ∈ stating, writes python (textOr python (get entry "db_type") "") kind job = true →
      ∀ seconds, secondsOf python path job = some seconds → AtLeast (retention.windowFor python kind) seconds

def NoneShortened (python : Python) (entry : Record) (path : String) (stating : List Record) : Prop :=
  ∀ kind ∈ allFileTypes, ∀ job ∈ stating, writes python (textOr python (get entry "db_type") "") kind job = true →
    ∀ seconds, secondsOf python path job = some seconds →
      ∀ held, heldWindow python (textOr python (get entry "db_type") "") path stating kind = some held → seconds ≤ held

theorem get_rewritten (entry : Record) (value : Json) : get (rewritten entry value) fieldName = value := by
  have apart : fieldName ≠ "jobs" := by decide
  unfold rewritten
  split
  · rw [get_set, if_neg apart, get_set, if_pos rfl]
  · rw [get_set, if_pos rfl]

theorem get_remove (record : Record) (name other : String) :
    get (remove record name) other = if other = name then .null else get record other := by
  induction record with
  | nil =>
    rw [remove, List.filter_nil]
    split <;> rfl
  | cons entry rest ih =>
    obtain ⟨key, held⟩ := entry
    unfold remove at ih ⊢
    by_cases here : key = name
    · rw [List.filter_cons_of_neg (by simp [here]), ih, get_cons, here]
      by_cases same : name = other
      · rw [if_pos same.symm, if_pos same.symm]
      · rw [if_neg (Ne.symm same), if_neg (Ne.symm same), if_neg same]
    · rw [List.filter_cons_of_pos (by simpa using here), get_cons, get_cons, ih]
      by_cases same : key = other
      · rw [if_pos same, if_pos same, if_neg (same ▸ here)]
      · rw [if_neg same, if_neg same]

theorem statesIt_withoutRetention (job : Record) : statesIt (withoutRetention job) = false := by
  simp [statesIt, withoutRetention, retentionFields, legacyFields, get_remove, isNull, fieldName]

theorem isNull_asConfig (retention : Retention) : isNull retention.asConfig = false := by
  unfold Retention.asConfig
  split <;> rfl

/-- A job that states nothing reads its entry's retention. -/
theorem get_retentionSource {retention : Retention} (silent : statesIt job = false)
    (stated : get entry fieldName = retention.asConfig) :
    get (retentionSource job entry) fieldName = retention.asConfig := by
  have states : (!isNull (get entry fieldName)) = true := by
    rw [stated, isNull_asConfig]
    rfl
  have speaks : statesIt entry = true := List.any_eq_true.mpr ⟨fieldName, List.mem_cons_self, states⟩
  have fields : (retentionFields.filter fun name => !isNull (get entry name)) =
      fieldName :: (legacyFields.map Prod.fst).filter fun name => !isNull (get entry name) :=
    List.filter_cons_of_pos states
  unfold retentionSource
  rw [silent, speaks, if_neg (by simp), fields, List.map_cons, get_cons, if_pos rfl, stated]

theorem eq_nil_of_jobsOf (listed : jobsOf entry = .ok jobs) (other : ∀ items, get entry "jobs" ≠ .array items) :
    jobs = [] := by
  unfold jobsOf at listed
  split at listed
  · rename_i items held
    exact absurd held (other items)
  · exact (Except.ok.inj listed).symm
  · exact (Except.ok.inj listed).symm
  · split at listed
    · cases listed
    · exact (Except.ok.inj listed).symm

theorem silent_of_rewritten (listed : jobsOf (rewritten entry value) = .ok jobs) (member : job ∈ jobs) :
    statesIt job = false := by
  have apart : "jobs" ≠ fieldName := by decide
  unfold rewritten at listed
  split at listed
  · rename_i items held
    unfold jobsOf at listed
    rw [get_set, if_pos rfl] at listed
    cases listed
    obtain ⟨item, inItems, read⟩ := List.mem_filterMap.mp member
    obtain ⟨before, -, rfl⟩ := List.mem_map.mp inItems
    cases before with
    | object stated =>
      cases read
      exact statesIt_withoutRetention stated
    | _ => cases read
  · rename_i other
    have none : ∀ items, get (PyValues.set entry fieldName value) "jobs" ≠ .array items := by
      intro items held
      rw [get_set, if_neg apart] at held
      exact other items held
    rw [eq_nil_of_jobsOf listed none] at member
    cases member

/-- A fold keeps what each job kept exactly when, where it rewrites the entry, no window is shortened. -/
theorem fold_keeps_iff {entry : Record} {path : String} {jobs : List Record} {folded : Folded}
    (listed : jobsOf entry = .ok jobs) (ran : foldEntry python entry path = .ok folded) :
    FoldKeeps python entry path (jobs.filter statesIt) folded ↔
      (folded.changes ≠ [] → NoneShortened python entry path (jobs.filter statesIt)) := by
  unfold foldEntry at ran
  rw [listed] at ran
  dsimp only at ran
  split at ran
  · cases ran
    simp only [ne_eq, not_true_eq_false, false_implies, iff_true]
    exact ⟨fun _ => rfl, fun changed => absurd rfl changed⟩
  split at ran
  · cases ran
  · cases ran
    simp only [ne_eq, not_true_eq_false, false_implies, iff_true]
    exact ⟨fun _ => rfl, fun changed => absurd rfl changed⟩
  · rename_i value effect folded
    cases ran
    obtain ⟨retention, accepted, config, windows⟩ := foldValue_spec folded
    have stated : get (rewritten entry value) fieldName = retention.asConfig := by
      rw [get_rewritten, config]
    have parsed := parsePerType_of_stated accepted stated path true
    constructor
    · intro kept changed kind type job member written seconds own held window
      obtain ⟨other, read, -, longest⟩ := kept.change changed
      rw [parsed] at read
      cases read
      obtain ⟨held', window', shown⟩ := windows kind type job member written
      rw [window'] at window
      cases window
      exact longest kind type job member written seconds own held shown
    · intro unshortened
      refine ⟨fun conflict => absurd rfl conflict, fun changed => ⟨retention, parsed, ?_, ?_⟩⟩
      · intro jobs listed job member
        exact parsePerType_of_stated accepted (get_retentionSource (silent_of_rewritten listed member) stated) path true
      · intro kind type job member written seconds own held shown
        obtain ⟨held', window, shown'⟩ := windows kind type job member written
        rw [shown'] at shown
        cases shown
        exact unshortened changed kind type job member written seconds own held window

end Spec

/-! ## Two jobs that write one type -/

def fullJob (name : String) (seconds : Int) : Json :=
  .object [("job", .string name), ("env", .object [("BACKUP_LEVEL", .string "full")]), (fieldName, .int seconds)]

def entryOf (jobs : List Json) : Record := [("db_type", .string "sqlserver"), ("jobs", .array jobs)]

def twoFullJobs : Record := entryOf [fullJob "nightly" 1209600, fullJob "weekly" 604800]

/-- The fourteen days of the first job become the seven of the second. -/
theorem shorter_full_job_wins :
    ∃ jobs folded, jobsOf twoFullJobs = .ok jobs ∧ foldEntry asciiPython twoFullJobs "backups[A]" = .ok folded ∧
      ¬FoldKeeps asciiPython twoFullJobs "backups[A]" (jobs.filter statesIt) folded := by
  refine ⟨_, _, rfl, rfl, fun kept => ?_⟩
  obtain ⟨retention, parsed, -, longest⟩ := kept.change (by simp)
  cases parsed
  have job := longest "FULL" (by decide) _ List.mem_cons_self rfl 1209600 rfl 604800 rfl
  exact absurd job (by decide)

def fullAndLog : Record :=
  entryOf [fullJob "full" 1209600,
    .object [("job", .string "log"), ("env", .object [("BACKUP_LEVEL", .string "log")]), (fieldName, .int 604800)]]

theorem fold_keeps_full_and_log :
    ∃ jobs folded, jobsOf fullAndLog = .ok jobs ∧ foldEntry asciiPython fullAndLog "backups[A]" = .ok folded ∧
      folded.changes.length = 1 ∧ FoldKeeps asciiPython fullAndLog "backups[A]" (jobs.filter statesIt) folded := by
  refine ⟨_, _, rfl, rfl, rfl, (fold_keeps_iff rfl rfl).mpr ?_⟩
  intro _ kind type job member written seconds own held window
  have longest : ∀ kind ∈ allFileTypes, ∀ job ∈ (jobsOf fullAndLog).toOption.getD [],
      writes asciiPython "sqlserver" kind job = true → (secondsOf asciiPython "backups[A]" job).getD 0 ≤
        (heldWindow asciiPython "sqlserver" "backups[A]" ((jobsOf fullAndLog).toOption.getD []) kind).getD 0 := by
    decide +kernel
  have below := longest kind type job (List.mem_of_mem_filter member) written
  rw [own] at below
  exact below.trans (le_of_eq (congrArg (fun window => window.getD 0) window))

end DbaBrain.Lib.RetentionFold
