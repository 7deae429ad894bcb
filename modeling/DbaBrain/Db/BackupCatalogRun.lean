import DbaBrain.Db.BackupCatalog

/-!
# What a call of the catalog's store can write

The calls as one type, and for each of them the statements it makes on
`backup_files` and `restore_run_files`.  Whatever holds of every such statement
holds of every call, and so of every sequence of calls.
-/

namespace DbaBrain.Db.BackupCatalog

open DbaBrain.Foundation DbaBrain.Foundation.Sql DbaBrain.Foundation.Execution

inductive Call
  | startBackupRun (values : Values BackupRunColumn)
  | finishBackupRun (id : Int) (status : Value) (values : Values BackupRunColumn)
  | recordBackup (run : Values BackupRunColumn) (items : List (Values BackupFileColumn))
  | recordBackupFile (values : Values BackupFileColumn)
  | setBackupFile (id : Int) (values : Values BackupFileColumn)
  | recordFileCheck (values : Values BackupFileCheckColumn)
  | checkBackupFile (id : Int) (checksumNow : Option String) (sizeNow : Value) (checkedBy byRunId location : String)
      (checkedAt : Option String)
  | startRestoreRun (values : Values RestoreRunColumn)
  | setRestoreRun (id : Int) (values : Values RestoreRunColumn)
  | addRunFile (values : Values RestoreRunFileColumn)
  | setRunFile (id : Int) (values : Values RestoreRunFileColumn)
  | checkRunFile (id : Int) (side : String) (checksumNow checkedAt : Option String)
  | recordCopyAttempt (values : Values CopyAttemptColumn)

section Calls

variable {platform : Platform}

/-- The catalog a call leaves, or why it raises. -/
def perform (clock : Clock) (seen : Catalog platform) (catalog : Catalog platform) :
    Call → Except Refusal (Catalog platform)
  | .startBackupRun values => (startBackupRun clock values catalog).map Prod.snd
  | .finishBackupRun id status values => finishBackupRun clock seen id status values catalog
  | .recordBackup run items => (recordBackup clock run items catalog).map Prod.snd
  | .recordBackupFile values => (recordBackupFile clock values catalog).map Prod.snd
  | .setBackupFile id values => setBackupFile clock seen id values catalog
  | .recordFileCheck values => (recordFileCheck clock seen values catalog).map Prod.snd
  | .checkBackupFile id checksumNow sizeNow checkedBy byRunId location checkedAt =>
      (checkBackupFile clock seen id checksumNow sizeNow checkedBy byRunId location checkedAt catalog).map Prod.snd
  | .startRestoreRun values => (startRestoreRun clock values catalog).map Prod.snd
  | .setRestoreRun id values => setRestoreRun clock seen id values catalog
  | .addRunFile values => (addRunFile clock values catalog).map Prod.snd
  | .setRunFile id values => setRunFile clock seen id values catalog
  | .checkRunFile id side checksumNow checkedAt =>
      (checkRunFile clock seen id side checksumNow checkedAt catalog).map Prod.snd
  | .recordCopyAttempt values => (recordCopyAttempt clock values catalog).map Prod.snd

/-- A call that raises is rolled back. -/
def answered (clock : Clock) (seen catalog : Catalog platform) (call : Call) : Catalog platform :=
  match perform clock seen catalog call with
  | .ok after => after
  | .error _ => catalog

/-! ## Statements on `backup_files` -/

def Call.items : Call → List (Values BackupFileColumn)
  | .recordBackup _ items => items
  | .recordBackupFile values => [values]
  | _ => []

def notedColumns : List BackupFileColumn :=
  [.checksumLastCheck, .lastCheckedAt, .lastCheckResult, .onDisk, .checksumMatches, .state, .avScanStatus,
   .avScannedAt, .avScanTool, .avScanToolVersion, .avScanSignatureVersion, .avScanServerId, .avScanResultText,
   .lastRestoreRunId, .lastRestoreAt, .lastRestoreAction, .lastRestoreTargetServerId, .lastRestoreResult,
   .lastRestoreVerdict, .updatedAt]

/-- A statement a call makes on `backup_files`. -/
inductive FileWrite (call : Call) : Rows.Write BackupFileColumn → Prop
  | recorded (now : String) (item values : Values BackupFileColumn) (member : item ∈ call.items)
      (same : ∀ column, column ≠ .backupRunId → column ≠ .chainParentFileId → values column = item column) :
      FileWrite call (.insert now values)
  | hashed (id : Int) (hash : String) (records : call.items ≠ []) :
      FileWrite call (.update id (single .rowHash (.text hash)))
  | set (id : Int) (values : Values BackupFileColumn) (now : String) (named : call = .setBackupFile id values)
      (settable : ∀ column, values column ≠ none → column ∈ BackupFileColumn.settable)
      (checksum : values .checksumAfterBackup = none) :
      FileWrite call (.update id (extended values (single .updatedAt (.text now))))
  | noted (id : Int) (values : Values BackupFileColumn)
      (columns : ∀ column, values column ≠ none → column ∈ notedColumns) :
      FileWrite call (.update id values)

/-- What a call leaves of the two tables whose rows later calls rely on. -/
structure Effect (call : Call) (catalog after : Catalog platform) : Prop where
  files : Rows.Written (FileWrite call) catalog.files after.files
  runFiles : Rows.Written (fun _ => True) catalog.runFiles after.runFiles

section Inversion

variable {clock : Clock} {seen catalog after : Catalog platform} {call : Call}

theorem Effect.unchanged (files : after.files = catalog.files) (runFiles : after.runFiles = catalog.runFiles) :
    Effect call catalog after := by
  constructor
  · rw [files]
    exact .refl _
  · rw [runFiles]
    exact .refl _

variable {κ : Type} {storage : Storage} {schema : Schema κ} {values : Values κ} {table : Rows storage schema} {id : Int}
  {answer : Int × Catalog platform}

theorem insert_ok {answer : Int × Rows storage schema} (ok : insert clock values table = .ok answer) :
    table.insert? clock.stored values = some answer ∧ table.write? (.insert clock.stored values) = some answer.2 := by
  rw [insert] at ok
  split at ok
  · cases ok
  · rename_i inserted ran
    cases ok
    exact ⟨ran, by rw [Rows.write?, ran]; rfl⟩

theorem execute_ok {after : Rows storage schema} (ok : execute id values table = .ok after) :
    table.write? (.update id values) = some after := by
  rw [execute] at ok
  split at ok
  · cases ok
  · rename_i updated ran
    cases ok
    exact ran

theorem update_ok {read after : Rows storage schema} (ok : update read id values table = .ok after) :
    table.write? (.update id values) = some after := by
  rw [update] at ok
  obtain ⟨_, _, ok⟩ := bind_eq_ok ok
  exact execute_ok ok

theorem known_ok [DecidableEq κ] {all settable : List κ} (ok : known all settable values = .ok ())
    (complete : ∀ column, column ∈ all) (column : κ) (named : values column ≠ none) : column ∈ settable := by
  rw [known] at ok
  split at ok
  · rename_i inside
    exact inside column (complete column) named
  · cases ok

/-! ### Recorded files -/

variable {files : Rows platform.storage backupFiles} {items : List (Values BackupFileColumn)}
  {column : BackupFileColumn} {checksumNow checkedAt : Option String}

theorem insertChained_written {item values : Values BackupFileColumn} {answer : Int × Rows platform.storage backupFiles}
    (member : item ∈ call.items)
    (same : ∀ column, column ≠ .backupRunId → column ≠ .chainParentFileId → values column = item column)
    (ok : insertChained clock values files = .ok answer) : Rows.Written (FileWrite call) files answer.2 := by
  rw [insertChained] at ok
  obtain ⟨⟨id, inserted⟩, insertOk, ok⟩ := bind_eq_ok ok
  obtain ⟨hashed, hashOk, ok⟩ := bind_eq_ok ok
  cases ok
  have records : call.items ≠ [] := List.ne_nil_of_mem member
  exact .step (.recorded clock.stored item values member same) (insert_ok insertOk).2
    (.one (.hashed id _ records) (execute_ok hashOk))

theorem linked_same (runId : Int) (item : Values BackupFileColumn) (files : Rows platform.storage backupFiles)
    (column : BackupFileColumn) (first : column ≠ .backupRunId) (second : column ≠ .chainParentFileId) :
    linked runId item files column = item column := by
  rw [linked]
  split
  · cases chainParent (extended item (single .backupRunId (.integer runId))) files with
    | none => simp [extended, single, first]
    | some parent => simp [extended, single, first, second]
  · simp [extended, single, first]

theorem insertFiles_written {runId : Int} {last : Rows platform.storage backupFiles}
    (members : ∀ item ∈ items, item ∈ call.items) (ok : insertFiles clock runId items files = .ok last) :
    Rows.Written (FileWrite call) files last := by
  induction items generalizing files with
  | nil =>
    cases ok
    exact .refl _
  | cons item rest ih =>
    rw [insertFiles] at ok
    obtain ⟨⟨id, next⟩, chained, ok⟩ := bind_eq_ok ok
    exact (insertChained_written (members item List.mem_cons_self) (linked_same runId item files) chained).trans
      (ih (fun other member => members other (List.mem_cons_of_mem _ member)) ok)

theorem recordBackup_effect {run : Values BackupRunColumn} (ok : recordBackup clock run items catalog = .ok answer) :
    Effect (.recordBackup run items) catalog answer.2 := by
  rw [recordBackup] at ok
  iterate 7 obtain ⟨_, _, ok⟩ := bind_eq_ok ok
  obtain ⟨⟨runId, runs⟩, _, ok⟩ := bind_eq_ok ok
  obtain ⟨files, inserted, ok⟩ := bind_eq_ok ok
  cases ok
  exact ⟨insertFiles_written (fun _ => id) inserted, .refl _⟩

theorem recordBackupFile_effect {values : Values BackupFileColumn}
    (ok : recordBackupFile clock values catalog = .ok answer) : Effect (.recordBackupFile values) catalog answer.2 := by
  rw [recordBackupFile] at ok
  iterate 3 obtain ⟨_, _, ok⟩ := bind_eq_ok ok
  obtain ⟨⟨id, files⟩, inserted, ok⟩ := bind_eq_ok ok
  cases ok
  exact ⟨insertChained_written (List.mem_singleton_self _) (fun _ _ _ => rfl) inserted, .refl _⟩

theorem oneOf_ok {name : κ} {allowed : List String} (ok : oneOf values name allowed = .ok ()) :
    get values name = .null ∨ ∃ word ∈ allowed, get values name = .text word := by
  rw [oneOf] at ok
  split at ok
  · assumption
  · cases ok

theorem refuseIf_ok {condition : Prop} [Decidable condition] {refusal : Refusal}
    (ok : refuseIf condition refusal = .ok ()) : ¬condition := by
  rw [refuseIf] at ok
  split at ok
  · cases ok
  · assumption

/-- What `set_backup_file` checked, and the one statement it made. -/
structure FileSet (clock : Clock) (seen : Catalog platform) (id : Int) (values : Values BackupFileColumn)
    (catalog after : Catalog platform) : Prop where
  settable : ∀ column, values column ≠ none → column ∈ BackupFileColumn.settable
  checksum : values .checksumAfterBackup = none
  offloadState : get values .offloadState = .null ∨ ∃ word ∈ offloadStates, get values .offloadState = .text word
  held : values .sourceDeletedAt ≠ none ∨ values .offloadState ≠ none → holdOffload (seen.files.get? id) values = .ok ()
  written : catalog.files.write? (.update id (extended values (single .updatedAt (.text clock.now)))) = some after.files
  others : after.runFiles = catalog.runFiles

theorem fileSet_of_ok {values : Values BackupFileColumn} (ok : setBackupFile clock seen id values catalog = .ok after) :
    FileSet clock seen id values catalog after := by
  rw [setBackupFile] at ok
  obtain ⟨_, settable, ok⟩ := bind_eq_ok ok
  obtain ⟨_, checksum, ok⟩ := bind_eq_ok ok
  obtain ⟨_, _, ok⟩ := bind_eq_ok ok
  obtain ⟨_, _, ok⟩ := bind_eq_ok ok
  obtain ⟨_, state, ok⟩ := bind_eq_ok ok
  obtain ⟨_, hold, ok⟩ := bind_eq_ok ok
  obtain ⟨files, updated, ok⟩ := bind_eq_ok ok
  cases ok
  refine ⟨known_ok settable BackupFileColumn.mem_all, not_not.mp (refuseIf_ok checksum), oneOf_ok state, ?_,
    update_ok updated, rfl⟩
  intro guarded
  rw [if_pos guarded] at hold
  exact hold

theorem setBackupFile_effect {values : Values BackupFileColumn}
    (ok : setBackupFile clock seen id values catalog = .ok after) :
    Effect (.setBackupFile id values) catalog after := by
  have set := fileSet_of_ok ok
  constructor
  · exact .one (.set id values clock.now rfl set.settable set.checksum) set.written
  · rw [set.others]
    exact .refl _

/-! ### Checks and uses -/

theorem latestScan_eq_none {values : Values BackupFileCheckColumn} (apart : column ∉ notedColumns) :
    latestScan values column = none := by
  unfold latestScan avScanColumn
  split <;> first | rfl | exact absurd (by simp [notedColumns]) apart

theorem latestCheck_eq_none {pruned : Bool} {values : Values BackupFileCheckColumn} (apart : column ∉ notedColumns) :
    latestCheck pruned values column = none := by
  unfold latestCheck
  split <;> first | rfl | exact absurd (by simp [notedColumns]) apart

theorem latest_noted (pruned : Bool) (values : Values BackupFileCheckColumn) (now : String) (column : BackupFileColumn)
    (named : extended (latest pruned values) (single .updatedAt (.text now)) column ≠ none) :
    column ∈ notedColumns := by
  by_contra apart
  have stamped : column ≠ .updatedAt := by
    rintro rfl
    exact apart (by simp [notedColumns])
  have check : (if onServer values then latestCheck pruned values else fun _ => none) column = none := by
    split
    · exact latestCheck_eq_none apart
    · rfl
  have scan : (if scanned values then latestScan values else fun _ => none) column = none := by
    split
    · exact latestScan_eq_none apart
    · rfl
  refine named ?_
  simp [extended, single, stamped, latest, check, scan]

theorem useValues_noted (file : RestoreRunFileColumn → Value) (runId : Int) (run : RestoreRunColumn → Value)
    (column : BackupFileColumn) (named : useValues clock file runId run column ≠ none) : column ∈ notedColumns := by
  by_contra apart
  refine named ?_
  unfold useValues
  split <;> first | rfl | exact absurd (by simp [notedColumns]) apart

theorem recordFileCheck_effect {values : Values BackupFileCheckColumn}
    (ok : recordFileCheck clock seen values catalog = .ok answer) : Effect call catalog answer.2 := by
  rw [recordFileCheck] at ok
  iterate 4 obtain ⟨_, _, ok⟩ := bind_eq_ok ok
  obtain ⟨⟨checkId, checks⟩, _, ok⟩ := bind_eq_ok ok
  dsimp only at ok
  split at ok
  · split at ok
    · cases ok
    · obtain ⟨files, updated, ok⟩ := bind_eq_ok ok
      cases ok
      exact ⟨.one (.noted _ _ (latest_noted _ _ _)) (update_ok updated), .refl _⟩
  · cases ok
    exact .unchanged rfl rfl

theorem checkBackupFile_effect {sizeNow : Value} {checkedBy byRunId location : String}
    {answer : String × Catalog platform}
    (ok : checkBackupFile clock seen id checksumNow sizeNow checkedBy byRunId location checkedAt catalog = .ok answer) :
    Effect call catalog answer.2 := by
  rw [checkBackupFile] at ok
  split at ok
  · cases ok
  · obtain ⟨⟨checkId, checked⟩, recorded, ok⟩ := bind_eq_ok ok
    cases ok
    exact recordFileCheck_effect recorded

theorem markUsed_effect {chosen : Int → (RestoreRunFileColumn → Value) → Bool}
    (ok : markUsed clock chosen catalog = .ok after) : Effect call catalog after := by
  rw [markUsed] at ok
  obtain ⟨files, marked, ok⟩ := bind_eq_ok ok
  cases ok
  refine ⟨?_, .refl _⟩
  generalize usedFiles catalog chosen = uses at marked
  generalize catalog.files = before at marked
  induction uses generalizing before with
  | nil =>
    cases marked
    exact .refl _
  | cons used rest ih =>
    rw [List.foldlM_cons] at marked
    obtain ⟨next, one, onward⟩ := bind_eq_ok marked
    refine Rows.Written.trans ?_ (ih next onward)
    rw [markFile] at one
    split at one
    · split at one
      · cases one
        exact .refl _
      · split at one
        · exact .one (.noted _ _ (useValues_noted _ _ _)) (execute_ok one)
        · cases one
          exact .refl _
    · cases one
      exact .refl _

/-! ### Restores and copies -/

theorem Effect.then {between : Catalog platform} (earlier : Effect call catalog between)
    (later : Effect call between after) : Effect call catalog after :=
  ⟨earlier.files.trans later.files, earlier.runFiles.trans later.runFiles⟩

theorem setRestoreRun_effect {values : Values RestoreRunColumn}
    (ok : setRestoreRun clock seen id values catalog = .ok after) : Effect call catalog after := by
  rw [setRestoreRun] at ok
  obtain ⟨_, _, ok⟩ := bind_eq_ok ok
  obtain ⟨_, _, ok⟩ := bind_eq_ok ok
  obtain ⟨restores, _, ok⟩ := bind_eq_ok ok
  have marked : Effect call { catalog with restores := restores } after := markUsed_effect ok
  exact ⟨marked.files, marked.runFiles⟩

theorem addRunFile_effect {values : Values RestoreRunFileColumn} (ok : addRunFile clock values catalog = .ok answer) :
    Effect call catalog answer.2 := by
  rw [addRunFile] at ok
  iterate 5 obtain ⟨_, _, ok⟩ := bind_eq_ok ok
  obtain ⟨⟨id, runFiles⟩, inserted, ok⟩ := bind_eq_ok ok
  obtain ⟨marked, used, ok⟩ := bind_eq_ok ok
  cases ok
  have first : Effect call catalog { catalog with runFiles := runFiles } :=
    ⟨.refl _, .one trivial (insert_ok inserted).2⟩
  exact first.then (markUsed_effect used)

theorem setRunFile_effect {values : Values RestoreRunFileColumn}
    (ok : setRunFile clock seen id values catalog = .ok after) : Effect call catalog after := by
  rw [setRunFile] at ok
  iterate 3 obtain ⟨_, _, ok⟩ := bind_eq_ok ok
  obtain ⟨runFiles, updated, ok⟩ := bind_eq_ok ok
  have first : Effect call catalog { catalog with runFiles := runFiles } :=
    ⟨.refl _, .one trivial (update_ok updated)⟩
  exact first.then (markUsed_effect ok)

theorem checkRunFile_effect {side : String} {answer : String × Catalog platform}
    (ok : checkRunFile clock seen id side checksumNow checkedAt catalog = .ok answer) :
    Effect call catalog answer.2 := by
  rw [checkRunFile] at ok
  obtain ⟨_, _, ok⟩ := bind_eq_ok ok
  split at ok
  · cases ok
  · obtain ⟨checked, set, ok⟩ := bind_eq_ok ok
    cases ok
    exact setRunFile_effect set

/-- Every call makes statements of the two kinds only. -/
theorem effect_of_perform (ok : perform clock seen catalog call = .ok after) : Effect call catalog after := by
  cases call with
  | startBackupRun values =>
    obtain ⟨answer, ran, rfl⟩ := map_eq_ok ok
    rw [startBackupRun] at ran
    iterate 5 obtain ⟨_, _, ran⟩ := bind_eq_ok ran
    cases ran
    exact .unchanged rfl rfl
  | finishBackupRun id status values =>
    rw [perform, finishBackupRun] at ok
    iterate 4 obtain ⟨_, _, ok⟩ := bind_eq_ok ok
    cases ok
    exact .unchanged rfl rfl
  | recordBackup run items =>
    obtain ⟨answer, ran, rfl⟩ := map_eq_ok ok
    exact recordBackup_effect ran
  | recordBackupFile values =>
    obtain ⟨answer, ran, rfl⟩ := map_eq_ok ok
    exact recordBackupFile_effect ran
  | setBackupFile id values => exact setBackupFile_effect ok
  | recordFileCheck values =>
    obtain ⟨answer, ran, rfl⟩ := map_eq_ok ok
    exact recordFileCheck_effect ran
  | checkBackupFile id checksumNow sizeNow checkedBy byRunId location checkedAt =>
    obtain ⟨answer, ran, rfl⟩ := map_eq_ok ok
    exact checkBackupFile_effect ran
  | startRestoreRun values =>
    obtain ⟨answer, ran, rfl⟩ := map_eq_ok ok
    rw [startRestoreRun] at ran
    iterate 6 obtain ⟨_, _, ran⟩ := bind_eq_ok ran
    cases ran
    exact .unchanged rfl rfl
  | setRestoreRun id values => exact setRestoreRun_effect ok
  | addRunFile values =>
    obtain ⟨answer, ran, rfl⟩ := map_eq_ok ok
    exact addRunFile_effect ran
  | setRunFile id values => exact setRunFile_effect ok
  | checkRunFile id side checksumNow checkedAt =>
    obtain ⟨answer, ran, rfl⟩ := map_eq_ok ok
    exact checkRunFile_effect ran
  | recordCopyAttempt values =>
    obtain ⟨answer, ran, rfl⟩ := map_eq_ok ok
    rw [recordCopyAttempt] at ran
    iterate 5 obtain ⟨_, _, ran⟩ := bind_eq_ok ran
    cases ran
    exact .unchanged rfl rfl

theorem effect_of_answered (clock : Clock) (seen catalog : Catalog platform) (call : Call) :
    Effect call catalog (answered clock seen catalog call) := by
  cases ran : perform clock seen catalog call with
  | error refusal =>
    rw [answered, ran]
    exact .unchanged rfl rfl
  | ok after =>
    rw [answered, ran]
    exact effect_of_perform ran

end Inversion

/-! ## Sequences of calls -/

/-- One call of a sequence: its stamps, what it read before it wrote, and its arguments. -/
structure Step (platform : Platform) where
  clock : Clock
  seen : Catalog platform
  call : Call

def Step.run (catalog : Catalog platform) (step : Step platform) : Catalog platform :=
  answered step.clock step.seen catalog step.call

/-- The catalog a sequence of calls leaves. -/
def afterCalls (catalog : Catalog platform) (steps : List (Step platform)) : Catalog platform :=
  steps.foldl Step.run catalog

/-- The catalog that calls one after another leave: each reads what the one before it left. -/
def sequence (start : Catalog platform) (calls : List (Clock × Call)) : Catalog platform :=
  calls.foldl (fun catalog step => answered step.1 catalog catalog step.2) start

theorem sequence_concat (start : Catalog platform) (calls : List (Clock × Call)) (step : Clock × Call) :
    sequence start (calls ++ [step]) =
      answered step.1 (sequence start calls) (sequence start calls) step.2 := by
  simp [sequence]

end Calls

/-! ### A backup's file -/

def textDigest : Platform where
  storage := sqlite ⟨fun _ => "0.0", fun _ => by decide, fun _ => none⟩
  realText _ := "0.0"
  toInt
    | .integer value => some value
    | _ => none
  lower := String.toLower
  sha256 text := "#" ++ text
  sha256_ne text := by
    intro empty
    have length := congrArg String.length empty
    simp at length

def nightly : Clock := ⟨"2026-10-30T02:00:00Z", "2026-10-30T02:00:00.000000Z", "2026-10-30 02:00:00"⟩

/-- A file as the backup that wrote it records it. -/
def writtenFile : Values BackupFileColumn
  | .backupId => some (.text "E")
  | .serverId => some (.text "S")
  | .engine => some (.text "sqlserver")
  | .fileName => some (.text "a.bak")
  | .fileType => some (.text "FULL")
  | .filePath => some (.text "/b/a.bak")
  | .sizeBytes => some (.integer 7)
  | .checksumAfterBackup => some (.text "0000000000000000000000000000000000000000000000000000000000000000")
  | .verdict => some (.text "ok")
  | _ => none

end DbaBrain.Db.BackupCatalog
