import DbaBrain.Db.BackupCatalogSchema
import DbaBrain.Foundation.Execution
import DbaBrain.Foundation.Selection

/-!
# The calls of the backup catalog's store

Each call is one transaction: it leaves the catalog it answers, or raises and
leaves the catalog it found.  What a call reads before its first write, it reads
of a catalog of its own: another writer may have committed since.
-/

namespace DbaBrain.Db.BackupCatalog

open DbaBrain.Foundation DbaBrain.Foundation.Sql DbaBrain.Foundation.Selection

/-- What the store is built on: a database's types, and Python's texts of floats, integers, lower case and sha256. -/
structure Platform where
  storage : Storage
  realText : ℚ → String
  toInt : Value → Option Int
  lower : String → String
  sha256 : String → String
  sha256_ne : ∀ text, sha256 text ≠ ""

/-- The stamps a call takes: `utc_now_text`, `_check_moment` and the database's own clock. -/
structure Clock where
  now : String
  moment : String
  stored : String

structure Catalog (platform : Platform) where
  runs : Rows platform.storage backupRuns
  files : Rows platform.storage backupFiles
  checks : Rows platform.storage backupFileChecks
  restores : Rows platform.storage restoreRuns
  runFiles : Rows platform.storage restoreRunFiles
  attempts : Rows platform.storage copyAttempts

def Catalog.empty (platform : Platform) : Catalog platform := ⟨.empty, .empty, .empty, .empty, .empty, .empty⟩

/-- Why a call raises: one of the store's own checks, or the database. -/
inductive Refusal
  | unknownColumns
  | missingFields
  | notOneOf
  | copyMaxRetryRequired
  | checksumIsTheBackups
  | noBackupFile
  | noRunFile
  | neverRewritten
  | verifiedNamesItsCopy
  | onlyVerifiedExpires
  | sourceBeforeItsCopy
  | wrongSide
  | notAnInteger
  | database

/-! ## Python's values -/

def truthy : Value → Bool
  | .null => false
  | .integer value => value ≠ 0
  | .real value => value ≠ 0
  | .text value => value ≠ ""

/-- `==`. -/
def same (first second : Value) : Bool := first = second ∨ first.equal second = some true

/-- In `(None, "")`. -/
def blank (value : Value) : Bool := value = .null ∨ value = .text ""

def Platform.str (platform : Platform) : Value → String
  | .null => "None"
  | .integer value => value.repr
  | .real value => platform.realText value
  | .text value => value

section Values

variable {κ : Type}

/-- `values.get(name)`. -/
def get (values : Values κ) (column : κ) : Value := (values column).getD .null

/-- `{**values, **more}`. -/
def extended (values more : Values κ) : Values κ := fun column => more column <|> values column

def single [DecidableEq κ] (column : κ) (value : Value) : Values κ := fun other => if other = column then some value else none

def known [DecidableEq κ] (all settable : List κ) (values : Values κ) : Except Refusal Unit :=
  if ∀ column ∈ all, values column ≠ none → column ∈ settable then .ok () else .error .unknownColumns

def require (values : Values κ) (names : List κ) : Except Refusal Unit :=
  if ∀ name ∈ names, blank (get values name) = false then .ok () else .error .missingFields

def oneOf (values : Values κ) (name : κ) (allowed : List String) : Except Refusal Unit :=
  if get values name = .null ∨ ∃ word ∈ allowed, get values name = .text word then .ok () else .error .notOneOf

end Values

def refuseIf (condition : Prop) [Decidable condition] (refusal : Refusal) : Except Refusal Unit :=
  if condition then .error refusal else .ok ()

/-! ## Statements -/

section Statements

variable {κ : Type} {storage : Storage} {schema : Schema κ}

def insert (clock : Clock) (values : Values κ) (table : Rows storage schema) :
    Except Refusal (Int × Rows storage schema) :=
  match table.insert? clock.stored values with
  | none => .error .database
  | some inserted => .ok inserted

def execute (id : Int) (values : Values κ) (table : Rows storage schema) : Except Refusal (Rows storage schema) :=
  match table.update? id values with
  | none => .error .database
  | some updated => .ok updated

def refuseRewrite (seen : Option (κ → Value)) (firsts : List κ) (values : Values κ) : Except Refusal Unit :=
  match seen with
  | none => .ok ()
  | some row =>
      if ∀ column ∈ firsts, ∀ value ∈ values column, row column = .null ∨ same value (row column) = true then .ok ()
      else .error .neverRewritten

def update (seen : Rows storage schema) (id : Int) (values : Values κ) (table : Rows storage schema) :
    Except Refusal (Rows storage schema) := do
  refuseRewrite (seen.get? id) schema.firsts values
  execute id values table

end Statements

section Store

variable {platform : Platform}

/-! ## Backups -/

def startBackupRun (clock : Clock) (values : Values BackupRunColumn) (catalog : Catalog platform) :
    Except Refusal (Int × Catalog platform) := do
  let values := extended (single .startedAt (.text clock.now)) values
  known BackupRunColumn.all BackupRunColumn.settable values
  require values [.backupId, .serverId, .engine]
  oneOf values .engine engines
  oneOf values .level backupLevels
  let (id, runs) ← insert clock values catalog.runs
  return (id, { catalog with runs := runs })

def finishBackupRun (clock : Clock) (seen : Catalog platform) (id : Int) (status : Value)
    (values : Values BackupRunColumn) (catalog : Catalog platform) : Except Refusal (Catalog platform) := do
  oneOf (single BackupRunColumn.status status) .status backupRunStatuses
  let values := extended (extended (single .endedAt (.text clock.now)) (single .status status)) values
  known BackupRunColumn.all BackupRunColumn.settable values
  oneOf values .engineVerify engineVerifyResults
  let runs ← update seen.runs id values catalog.runs
  return { catalog with runs := runs }

/-- `CHAIN_FIELDS`, each with the name it has in the hashed text. -/
def chainFields : List (BackupFileColumn × String) :=
  [(.backupId, "backup_id"), (.serverId, "server_id"), (.databaseName, "database_name"), (.engine, "engine"),
   (.fileName, "file_name"), (.fileType, "file_type"), (.filePath, "file_path"), (.sizeBytes, "size_bytes"),
   (.checksumAfterBackup, "checksum_after_backup"), (.backupStartedAt, "backup_started_at"),
   (.backupEndedAt, "backup_ended_at"), (.baseline, "baseline")]

def fieldText (platform : Platform) (row : BackupFileColumn → Value) (column : BackupFileColumn) : Json :=
  match row column with
  | .null => .null
  | value => .string (platform.str value)

/-- What is hashed: the entry's previous hash and the row's covered fields, by name. -/
def hashedText (platform : Platform) (row : BackupFileColumn → Value) (previous : String) : String :=
  Json.dumps ⟨true, true⟩ (.array [.string previous,
    .object (sortedBy Prod.fst (chainFields.map fun field => (field.2, fieldText platform row field.1)))])

def rowHash (platform : Platform) (row : BackupFileColumn → Value) (previous : String) : String :=
  platform.sha256 (hashedText platform row previous)

/-- `previous or ""`. -/
def hashText (platform : Platform) (value : Value) : String := if truthy value then platform.str value else ""

/-- The newest hashed row of an entry before `id`. -/
def previousHash (rows : List (Int × (BackupFileColumn → Value))) (backupId : Value) (id : Int) : Value :=
  (((rows.filter fun entry => entry.1 < id ∧ (entry.2 .backupId).equal backupId = some true ∧
    entry.2 .rowHash ≠ .null).getLast?).map fun entry => entry.2 .rowHash).getD .null

def insertChained (clock : Clock) (values : Values BackupFileColumn) (files : Rows platform.storage backupFiles) :
    Except Refusal (Int × Rows platform.storage backupFiles) := do
  let (id, inserted) ← insert clock values files
  let stored := (inserted.get? id).getD fun _ => .null
  let previous := hashText platform (previousHash inserted.rows (stored .backupId) id)
  let files ← execute id (single .rowHash (.text (rowHash platform stored previous))) inserted
  return (id, files)

def fullTypes : List String := ["FULL", "FULL_BASE", "RMAN_L0"]

def dependentTypes : List String := ["DIFF", "INCR_BASE", "RMAN_L1", "LOG", "WAL", "ARCHIVELOG"]

/-- The newest present FULL of the database on the server. -/
def chainParent (item : Values BackupFileColumn) (files : Rows platform.storage backupFiles) : Option Int :=
  let bound (value : Value) := (platform.storage.bind .text value).getD .null
  let database := if truthy (get item .databaseName) then get item .databaseName else .text ""
  ((files.rows.filter fun entry => (entry.2 .serverId).equal (bound (get item .serverId)) = some true ∧
    (entry.2 .databaseName).equal (bound database) = some true ∧
    (entry.2 .fileType).oneOf fullTypes = some true ∧ (entry.2 .state).equal (.text "present") = some true).getLast?).map
      Prod.fst

/-- One file of a run: linked to the run, and a DIFF or LOG to its FULL. -/
def linked (runId : Int) (item : Values BackupFileColumn) (files : Rows platform.storage backupFiles) :
    Values BackupFileColumn :=
  let item := extended item (single .backupRunId (.integer runId))
  if (∃ word ∈ dependentTypes, get item .fileType = .text word) ∧ get item .chainParentFileId = .null then
    match chainParent item files with
    | none => item
    | some parent => extended item (single .chainParentFileId (.integer parent))
  else item

def checkFile (values : Values BackupFileColumn) : Except Refusal Unit := do
  require values [.serverId, .engine, .fileName, .fileType, .filePath, .verdict]
  oneOf values .fileType fileTypes
  oneOf values .verdict backupFileVerdicts

def insertFiles (clock : Clock) (runId : Int) : List (Values BackupFileColumn) →
    Rows platform.storage backupFiles → Except Refusal (Rows platform.storage backupFiles)
  | [], files => .ok files
  | item :: rest, files => do
      let (_, files) ← insertChained clock (linked runId item files) files
      insertFiles clock runId rest files

def recordBackup (clock : Clock) (run : Values BackupRunColumn) (items : List (Values BackupFileColumn))
    (catalog : Catalog platform) : Except Refusal (Int × Catalog platform) := do
  known BackupRunColumn.all BackupRunColumn.settable run
  require run [.backupId, .serverId, .engine, .startedAt, .status]
  oneOf run .engine engines
  oneOf run .level backupLevels
  oneOf run .status backupRunStatuses
  items.forM (known BackupFileColumn.all BackupFileColumn.settable)
  items.forM checkFile
  let (runId, runs) ← insert clock run catalog.runs
  let files ← insertFiles clock runId items catalog.files
  return (runId, { catalog with runs := runs, files := files })

def recordBackupFile (clock : Clock) (values : Values BackupFileColumn) (catalog : Catalog platform) :
    Except Refusal (Int × Catalog platform) := do
  known BackupFileColumn.all BackupFileColumn.settable values
  checkFile values
  oneOf values .avScanStatus avScanStatuses
  let (id, files) ← insertChained clock values catalog.files
  return (id, { catalog with files := files })

/-- `_hold_offload`, of the row the call read with the call's own values over it. -/
def holdOffload (seen : Option (BackupFileColumn → Value)) (values : Values BackupFileColumn) : Except Refusal Unit :=
  match seen with
  | none => .error .noBackupFile
  | some row =>
      let merged (column : BackupFileColumn) : Value := (values column).getD (row column)
      if merged .offloadState = .text "verified" ∧
          ∃ name ∈ [BackupFileColumn.offloadServerId, .offloadPath, .offloadRunId, .offloadVerifiedAt],
            blank (merged name) = true then .error .verifiedNamesItsCopy
      else if merged .offloadState = .text "expired" ∧
          ¬(truthy (merged .offloadExpiredAt) = true ∧ truthy (merged .offloadVerifiedAt) = true) then
        .error .onlyVerifiedExpires
      else if truthy (merged .sourceDeletedAt) = true ∧
          ¬((merged .offloadState = .text "verified" ∨ merged .offloadState = .text "expired") ∧
            truthy (merged .offloadVerifiedAt) = true) then .error .sourceBeforeItsCopy
      else .ok ()

def setBackupFile (clock : Clock) (seen : Catalog platform) (id : Int) (values : Values BackupFileColumn)
    (catalog : Catalog platform) : Except Refusal (Catalog platform) := do
  known BackupFileColumn.all BackupFileColumn.settable values
  refuseIf (values .checksumAfterBackup ≠ none) .checksumIsTheBackups
  oneOf values .state backupFileStates
  oneOf values .avScanStatus avScanStatuses
  oneOf values .offloadState offloadStates
  (if values .sourceDeletedAt ≠ none ∨ values .offloadState ≠ none then holdOffload (seen.files.get? id) values
    else .ok ())
  let files ← update seen.files id (extended values (single .updatedAt (.text clock.now))) catalog.files
  return { catalog with files := files }

/-! ## Checks -/

/-- `AV_SCAN_COLUMNS`, which both tables have. -/
def avScanColumn : BackupFileColumn → Option BackupFileCheckColumn
  | .avScanStatus => some .avScanStatus
  | .avScannedAt => some .avScannedAt
  | .avScanTool => some .avScanTool
  | .avScanToolVersion => some .avScanToolVersion
  | .avScanSignatureVersion => some .avScanSignatureVersion
  | .avScanServerId => some .avScanServerId
  | .avScanResultText => some .avScanResultText
  | _ => none

/-- The result of a check, as the column that says whether the bytes are the backup's. -/
def matchFlag (result : Value) : Value :=
  if result = .text "match" then .integer 1 else if result = .text "mismatch" then .integer 0 else .null

def onServer (values : Values BackupFileCheckColumn) : Bool :=
  truthy (get values .result) ∧ (values .location).getD (.text "source") = .text "source"

def scanned (values : Values BackupFileCheckColumn) : Bool := get values .checkedBy = .text "av_scan"

def latestCheck (pruned : Bool) (values : Values BackupFileCheckColumn) : Values BackupFileColumn
  | .checksumLastCheck => some (get values .checksumNow)
  | .lastCheckedAt => some (get values .checkedAt)
  | .lastCheckResult => some (get values .result)
  | .onDisk => some (.integer (if get values .result = .text "missing" then 0 else 1))
  | .checksumMatches => some (matchFlag (get values .result))
  | .state =>
      if pruned then none
      else some (if get values .result = .text "match" then .text "present" else get values .result)
  | _ => none

def latestScan (values : Values BackupFileCheckColumn) : Values BackupFileColumn := fun column =>
  (avScanColumn column).map fun name => get values name

def latest (pruned : Bool) (values : Values BackupFileCheckColumn) : Values BackupFileColumn :=
  extended (if onServer values then latestCheck pruned values else fun _ => none)
    (if scanned values then latestScan values else fun _ => none)

def recordFileCheck (clock : Clock) (seen : Catalog platform) (values : Values BackupFileCheckColumn)
    (catalog : Catalog platform) : Except Refusal (Int × Catalog platform) := do
  let values := extended (single .checkedAt (.text clock.moment)) values
  known BackupFileCheckColumn.all BackupFileCheckColumn.settable values
  require values [.fileId, .serverId, .fileName, .fileType, .filePath, .checkedBy]
  oneOf values .checkedBy BackupCatalog.checkedBy
  oneOf values .result checkResults
  let (checkId, checks) ← insert clock values catalog.checks
  if onServer values || scanned values then
    match platform.toInt (get values .fileId) with
    | none => .error .notAnInteger
    | some fileId =>
        let pruned := ((seen.files.get? fileId).map fun row => row .state) = some (.text "pruned")
        let files ← update seen.files fileId
          (extended (latest pruned values) (single .updatedAt (.text clock.now))) catalog.files
        return (checkId, { catalog with checks := checks, files := files })
  else return (checkId, { catalog with checks := checks })

/-- `(checksum_now or "").lower() or None`. -/
def loweredNow (platform : Platform) (checksumNow : Option String) : Option String :=
  let lowered := platform.lower (checksumNow.getD "")
  if lowered = "" then none else some lowered

/-- The answer a stored checksum gives of the bytes found now. -/
def checkResult (stored : Value) : Option String → String
  | none => "missing"
  | some now => if truthy stored ∧ stored = .text now then "match" else "mismatch"

def checkBackupFile (clock : Clock) (seen : Catalog platform) (id : Int) (checksumNow : Option String)
    (sizeNow : Value) (checkedBy byRunId location : String) (checkedAt : Option String)
    (catalog : Catalog platform) : Except Refusal (String × Catalog platform) :=
  match seen.files.get? id with
  | none => .error .noBackupFile
  | some row => do
      let now := loweredNow platform checksumNow
      let result := checkResult (row .checksumAfterBackup) now
      let moment := if checkedAt.getD "" = "" then clock.moment else checkedAt.getD ""
      let values : Values BackupFileCheckColumn := fun column => match column with
        | .fileId => some (.integer id)
        | .serverId => some (row .serverId)
        | .databaseName => some (row .databaseName)
        | .fileName => some (row .fileName)
        | .fileType => some (row .fileType)
        | .filePath => some (row .filePath)
        | .checkedAt => some (.text moment)
        | .checkedBy => some (.text checkedBy)
        | .byRunId => some (.text byRunId)
        | .location => some (.text location)
        | .checksumAfterBackup => some (row .checksumAfterBackup)
        | .checksumNow => some (now.elim .null .text)
        | .sizeNow => some sizeNow
        | .result => some (.text result)
        | _ => none
      let (_, catalog) ← recordFileCheck clock seen values catalog
      return (result, catalog)

/-! ## Restores and copies -/

def startRestoreRun (clock : Clock) (values : Values RestoreRunColumn) (catalog : Catalog platform) :
    Except Refusal (Int × Catalog platform) := do
  let values := extended (single .startedAt (.text clock.now)) values
  known RestoreRunColumn.all RestoreRunColumn.settable values
  require values [.action, .sourceServerId, .targetServerId]
  refuseIf (get values .copyMaxRetry = .null) .copyMaxRetryRequired
  oneOf values .action runActions
  oneOf values .phase restorePhases
  let (id, restores) ← insert clock values catalog.restores
  return (id, { catalog with restores := restores })

/-- The files of a run, or one of them, that a restore or a copy used: no offload. -/
def usedFiles (catalog : Catalog platform) (chosen : Int → (RestoreRunFileColumn → Value) → Bool) :
    List ((RestoreRunFileColumn → Value) × Int × (RestoreRunColumn → Value)) :=
  catalog.runFiles.rows.filterMap fun entry =>
    match chosen entry.1 entry.2, entry.2 .restoreRunId with
    | true, .integer runId =>
        (catalog.restores.get? runId).bind fun run =>
          if entry.2 .fileId ≠ .null ∧ differs (run .action) "offload" = some true then
            some (entry.2, runId, run)
          else none
    | _, _ => none

/-- What a use leaves on the file it used. -/
def useValues (clock : Clock) (file : RestoreRunFileColumn → Value) (runId : Int) (run : RestoreRunColumn → Value) :
    Values BackupFileColumn := fun column => match column with
  | .lastRestoreRunId => some (.integer runId)
  | .lastRestoreAt => some (run .startedAt)
  | .lastRestoreAction => some (run .action)
  | .lastRestoreTargetServerId => some (run .targetServerId)
  | .lastRestoreResult => some (run .phase)
  | .lastRestoreVerdict => some (file .verdict)
  | .updatedAt => some (.text clock.now)
  | _ => none

/-- One `UPDATE` of `_mark_used`: a mark only moves forward. -/
def markFile (clock : Clock) (files : Rows platform.storage backupFiles)
    (used : (RestoreRunFileColumn → Value) × Int × (RestoreRunColumn → Value)) :
    Except Refusal (Rows platform.storage backupFiles) :=
  match used.1 .fileId with
  | .integer fileId =>
      match files.get? fileId with
      | none => .ok files
      | some row =>
          if (row .lastRestoreRunId).isNull.or ((row .lastRestoreRunId).atMost (.integer used.2.1)) = some true then
            execute fileId (useValues clock used.1 used.2.1 used.2.2) files
          else .ok files
  | _ => .ok files

def markUsed (clock : Clock) (chosen : Int → (RestoreRunFileColumn → Value) → Bool) (catalog : Catalog platform) :
    Except Refusal (Catalog platform) := do
  let files ← (usedFiles catalog chosen).foldlM (markFile clock) catalog.files
  return { catalog with files := files }

def setRestoreRun (clock : Clock) (seen : Catalog platform) (id : Int) (values : Values RestoreRunColumn)
    (catalog : Catalog platform) : Except Refusal (Catalog platform) := do
  known RestoreRunColumn.all RestoreRunColumn.settable values
  oneOf values .phase restorePhases
  let restores ← update seen.restores id values catalog.restores
  markUsed clock (fun _ row => row .restoreRunId = .integer id) { catalog with restores := restores }

def addRunFile (clock : Clock) (values : Values RestoreRunFileColumn) (catalog : Catalog platform) :
    Except Refusal (Int × Catalog platform) := do
  known RestoreRunFileColumn.all RestoreRunFileColumn.settable values
  require values [.restoreRunId, .sourceServerId, .targetServerId, .fileName, .fileType, .sourcePath, .targetPath]
  refuseIf (get values .copyMaxRetry = .null) .copyMaxRetryRequired
  oneOf values .fileType fileTypes
  oneOf values .verdict runFileVerdicts
  let (id, runFiles) ← insert clock values catalog.runFiles
  let catalog ← markUsed clock (fun other _ => other = id) { catalog with runFiles := runFiles }
  return (id, catalog)

def setRunFile (clock : Clock) (seen : Catalog platform) (id : Int) (values : Values RestoreRunFileColumn)
    (catalog : Catalog platform) : Except Refusal (Catalog platform) := do
  known RestoreRunFileColumn.all RestoreRunFileColumn.settable values
  oneOf values .verdict runFileVerdicts
  oneOf values .avScanStatus avScanStatuses
  let runFiles ← update seen.runFiles id (extended values (single .updatedAt (.text clock.now))) catalog.runFiles
  markUsed clock (fun other _ => other = id) { catalog with runFiles := runFiles }

def checkRunFile (clock : Clock) (seen : Catalog platform) (id : Int) (side : String) (checksumNow : Option String)
    (checkedAt : Option String) (catalog : Catalog platform) : Except Refusal (String × Catalog platform) := do
  refuseIf (side ≠ "source" ∧ side ≠ "target") .wrongSide
  match seen.runFiles.get? id with
  | none => .error .noRunFile
  | some row =>
      let stored := if truthy (row .checksumAfterBackup) then row .checksumAfterBackup
        else row .checksumSourceBeforeCopy
      let result := checkResult stored (loweredNow platform checksumNow)
      let onDisk : Value := .integer (if result = "missing" then 0 else 1)
      let stamp : Value := .text (if checkedAt.getD "" = "" then clock.now else checkedAt.getD "")
      let values : Values RestoreRunFileColumn := if side = "source" then
          fun column => match column with
            | .sourceOnDisk => some onDisk
            | .sourceChecksumMatches => some (matchFlag (.text result))
            | .sourceCheckedAt => some stamp
            | _ => none
        else
          fun column => match column with
            | .targetOnDisk => some onDisk
            | .targetChecksumMatches => some (matchFlag (.text result))
            | .targetCheckedAt => some stamp
            | _ => none
      let catalog ← setRunFile clock seen id values catalog
      return (result, catalog)

def recordCopyAttempt (clock : Clock) (values : Values CopyAttemptColumn) (catalog : Catalog platform) :
    Except Refusal (Int × Catalog platform) := do
  let values := extended (single .startedAt (.text clock.now)) values
  known CopyAttemptColumn.all CopyAttemptColumn.settable values
  require values [.runFileId, .attemptNo, .sourceServerId, .targetServerId, .fileName, .fileType, .sourcePath,
    .targetPath, .checksumSourceBeforeCopy, .result]
  oneOf values .fileType fileTypes
  oneOf values .result attemptResults
  let (id, attempts) ← insert clock values catalog.attempts
  return (id, { catalog with attempts := attempts })

end Store

end DbaBrain.Db.BackupCatalog
