import DbaBrain.Foundation.Sql

/-!
# The six tables of the backup catalog

Columns, defaults, constraints and unique indexes as the catalog declares them.
The row id of a table is not a column of its own here: it is the key the rows
are kept by.
-/

namespace DbaBrain.Db.BackupCatalog

open DbaBrain.Foundation.Sql

/-! ## The lists a column may hold -/

def algorithms : List String := ["sha256"]

def engines : List String := ["sqlserver", "postgresql", "oracle", "mysql"]

def backupLevels : List String := ["full", "diff", "log"]

def fileTypes : List String :=
  ["FULL", "DIFF", "LOG", "FULL_BASE", "INCR_BASE", "MANIFEST", "WAL", "RMAN_L0", "RMAN_L1", "ARCHIVELOG",
    "CONTROLFILE", "SPFILE", "CERT"]

def backupRunStatuses : List String := ["RUNNING", "DONE", "ERROR"]

def engineVerifyResults : List String := ["passed", "failed", "not_run"]

def backupFileVerdicts : List String := ["ok", "verify_failed", "hash_failed", "size_failed"]

def backupFileStates : List String := ["present", "pruned", "missing", "mismatch"]

def baselines : List String := ["backup", "backfill"]

def checkResults : List String := ["match", "mismatch", "missing"]

def checkedBy : List String := ["scrub", "restore", "copy_only", "vault", "av_scan", "backfill", "offload"]

def checkLocations : List String := ["source", "vault", "repository"]

def restoreActions : List String := ["restore", "copy_only"]

def runActions : List String := restoreActions ++ ["offload"]

def offloadStates : List String := ["pending", "verified", "failed", "quarantined", "expired"]

def restorePhases : List String :=
  ["planning", "copying", "verified", "restoring", "verifying_db", "copied", "done", "refused", "error"]

def runFileVerdicts : List String :=
  ["copying", "match", "copied", "recopied", "source_mismatch", "source_missing", "uncatalogued_refused",
    "copy_failed_after_retries"]

def provenVerdicts : List String := ["match", "copied", "recopied"]

def attemptResults : List String := ["match", "mismatch", "copy_error"]

def avScanStatuses : List String := ["clean", "infected", "error", "skipped"]

def maxCopyMaxRetry : Int := 10

/-- `column <> 'word'`. -/
def differs (value : Value) (word : String) : Truth := (value.equal (.text word)).map not

/-! ## `backup_runs` -/

inductive BackupRunColumn
  | backupId | jobRunId | serverId | engine | level | nodeHost | appVersion | startedAt | endedAt | status
  | filesCount | bytesTotal | engineVerify | engineVerifyText | errorText | retentionJson | pitrReachSeconds
  | createdAt
  deriving DecidableEq

namespace BackupRunColumn

def all : List BackupRunColumn :=
  [.backupId, .jobRunId, .serverId, .engine, .level, .nodeHost, .appVersion, .startedAt, .endedAt, .status,
   .filesCount, .bytesTotal, .engineVerify, .engineVerifyText, .errorText, .retentionJson, .pitrReachSeconds,
   .createdAt]

theorem mem_all (column : BackupRunColumn) : column ∈ all := by
  cases column <;> simp [all]

/-- The columns a writer may set. -/
def settable : List BackupRunColumn :=
  all.filter fun column => column ∉ [.createdAt]

def affinity : BackupRunColumn → Affinity
  | .jobRunId | .filesCount | .bytesTotal | .pitrReachSeconds => .integer
  | _ => .text

def required : List BackupRunColumn :=
  [.backupId, .serverId, .engine, .nodeHost, .appVersion, .startedAt, .status, .filesCount, .bytesTotal,
   .engineVerifyText, .errorText, .createdAt]

def default (now : String) : BackupRunColumn → Value
  | .nodeHost | .appVersion | .engineVerifyText | .errorText => .text ""
  | .status => .text "RUNNING"
  | .filesCount | .bytesTotal => .integer 0
  | .createdAt => .text now
  | _ => .null

def checks : List (Check BackupRunColumn) :=
  [listed .engine engines, nullOr .level (listed .level backupLevels), listed .status backupRunStatuses,
    least .filesCount 0, least .bytesTotal 0, nullOr .engineVerify (listed .engineVerify engineVerifyResults)]

end BackupRunColumn

def backupRuns : Schema BackupRunColumn where
  columns := BackupRunColumn.all
  complete := BackupRunColumn.mem_all
  affinity := BackupRunColumn.affinity
  required := BackupRunColumn.required
  default := BackupRunColumn.default
  checks := BackupRunColumn.checks
  unique := [keyOf [.backupId, .startedAt]]
  firsts := []
  firsts_default := by
    intro column first now
    cases first

/-! ## `backup_files` -/

inductive BackupFileColumn
  | backupRunId | backupId | jobRunId | serverId | databaseName | engine | fileName | fileType | filePath
  | fileFolder | hostPath | containerName | backupStartedAt | backupEndedAt | sizeBytes | mtimeUtc
  | checksumAlgo | checksumAfterBackup | engineVerify | engineVerifyText | chainParentFileId | chainPosition
  | engineMetaJson | encrypted | certThumbprint | verdict | state | onDisk | checksumMatches
  | checksumLastCheck | lastCheckedAt | lastCheckResult | baseline | avScanStatus | avScannedAt | avScanTool
  | avScanToolVersion | avScanSignatureVersion | avScanServerId | avScanResultText | lastRestoreRunId
  | rowHash | prunedBy | lastRestoreAt | lastRestoreAction | lastRestoreTargetServerId | lastRestoreResult
  | lastRestoreVerdict | offloadState | offloadServerId | offloadPath | offloadRunId | offloadAttemptedAt
  | offloadVerifiedAt | offloadError | sourceDeletedAt | offloadExpiredAt | createdAt | updatedAt
  deriving DecidableEq

namespace BackupFileColumn

def all : List BackupFileColumn :=
  [.backupRunId, .backupId, .jobRunId, .serverId, .databaseName, .engine, .fileName, .fileType, .filePath,
   .fileFolder, .hostPath, .containerName, .backupStartedAt, .backupEndedAt, .sizeBytes, .mtimeUtc,
   .checksumAlgo, .checksumAfterBackup, .engineVerify, .engineVerifyText, .chainParentFileId, .chainPosition,
   .engineMetaJson, .encrypted, .certThumbprint, .verdict, .state, .onDisk, .checksumMatches,
   .checksumLastCheck, .lastCheckedAt, .lastCheckResult, .baseline, .avScanStatus, .avScannedAt, .avScanTool,
   .avScanToolVersion, .avScanSignatureVersion, .avScanServerId, .avScanResultText, .lastRestoreRunId,
   .rowHash, .prunedBy, .lastRestoreAt, .lastRestoreAction, .lastRestoreTargetServerId, .lastRestoreResult,
   .lastRestoreVerdict, .offloadState, .offloadServerId, .offloadPath, .offloadRunId, .offloadAttemptedAt,
   .offloadVerifiedAt, .offloadError, .sourceDeletedAt, .offloadExpiredAt, .createdAt, .updatedAt]

theorem mem_all (column : BackupFileColumn) : column ∈ all := by
  cases column <;> simp [all]

/-- The columns a writer may set. -/
def settable : List BackupFileColumn :=
  all.filter fun column => column ∉ [.lastRestoreRunId, .rowHash, .lastRestoreAt, .lastRestoreAction, .lastRestoreTargetServerId,
    .lastRestoreResult, .lastRestoreVerdict, .createdAt, .updatedAt]

def affinity : BackupFileColumn → Affinity
  | .backupRunId | .jobRunId | .sizeBytes | .chainParentFileId | .chainPosition | .encrypted | .onDisk | .checksumMatches | .lastRestoreRunId | .offloadRunId => .integer
  | _ => .text

def required : List BackupFileColumn :=
  [.backupId, .serverId, .databaseName, .engine, .fileName, .fileType, .filePath, .fileFolder, .hostPath,
   .containerName, .checksumAlgo, .engineVerifyText, .engineMetaJson, .certThumbprint, .verdict, .state,
   .baseline, .offloadError, .createdAt, .updatedAt]

def default (now : String) : BackupFileColumn → Value
  | .backupId | .databaseName | .fileFolder | .hostPath | .containerName | .engineVerifyText | .certThumbprint | .offloadError => .text ""
  | .checksumAlgo => .text "sha256"
  | .engineMetaJson => .text "\x7b\x7d"
  | .state => .text "present"
  | .baseline => .text "backup"
  | .createdAt | .updatedAt => .text now
  | _ => .null

/-- A file the run could not hash says so in its verdict. -/
def hashed : Check BackupFileColumn := fun row =>
  (row .checksumAfterBackup).isSet.or ((row .verdict).equal (.text "hash_failed"))

def sized : Check BackupFileColumn := fun row =>
  (row .sizeBytes).isSet.or ((row .verdict).oneOf ["hash_failed", "size_failed"])

/-- `ck_backup_files_offload_verified`: a verified copy is named whole. -/
def offloadVerified : Check BackupFileColumn := fun row =>
  ((row .offloadState).isNull.or (differs (row .offloadState) "verified")).or
    ((((row .offloadServerId).isSet.and (row .offloadPath).isSet).and (row .offloadRunId).isSet).and
      (row .offloadVerifiedAt).isSet)

/-- `ck_backup_files_source_deleted_after_copy`. -/
def sourceDeletedAfterCopy : Check BackupFileColumn := fun row =>
  (row .sourceDeletedAt).isNull.or
    (((row .offloadState).oneOf ["verified", "expired"]).and (row .offloadVerifiedAt).isSet)

def offloadExpired : Check BackupFileColumn := fun row =>
  ((row .offloadState).isNull.or (differs (row .offloadState) "expired")).or
    ((row .offloadExpiredAt).isSet.and (row .offloadVerifiedAt).isSet)

/-- `ux_backup_files_path`: the path of a file that is not pruned. -/
def pathKey (row : BackupFileColumn → Value) : Option (List Value) :=
  if differs (row .state) "pruned" = some true then keyOf [.serverId, .filePath] row else none

def checks : List (Check BackupFileColumn) :=
  [listed .engine engines, listed .fileType fileTypes, nullOr .sizeBytes (least .sizeBytes 0),
    listed .checksumAlgo algorithms, nullOr .checksumAfterBackup (textLength .checksumAfterBackup 64),
    nullOr .engineVerify (listed .engineVerify engineVerifyResults),
    nullOr .chainPosition (least .chainPosition 1), nullOr .encrypted (flag .encrypted),
    listed .verdict backupFileVerdicts, listed .state backupFileStates, nullOr .onDisk (flag .onDisk),
    nullOr .checksumMatches (flag .checksumMatches),
    nullOr .checksumLastCheck (textLength .checksumLastCheck 64),
    nullOr .lastCheckResult (listed .lastCheckResult checkResults), listed .baseline baselines,
    nullOr .avScanStatus (listed .avScanStatus avScanStatuses),
    nullOr .lastRestoreAction (listed .lastRestoreAction restoreActions),
    nullOr .lastRestoreResult (listed .lastRestoreResult restorePhases),
    nullOr .lastRestoreVerdict (listed .lastRestoreVerdict runFileVerdicts),
    hashed, sized, listed .offloadState offloadStates, offloadVerified, sourceDeletedAfterCopy, offloadExpired]

end BackupFileColumn

/-- One row a file a backup wrote. -/
def backupFiles : Schema BackupFileColumn where
  columns := BackupFileColumn.all
  complete := BackupFileColumn.mem_all
  affinity := BackupFileColumn.affinity
  required := BackupFileColumn.required
  default := BackupFileColumn.default
  checks := BackupFileColumn.checks
  unique := [BackupFileColumn.pathKey]
  firsts := [.checksumAfterBackup, .sizeBytes]
  firsts_default := by
    intro column first now
    revert column
    simp [BackupFileColumn.default]

/-! ## `backup_file_checks` -/

inductive BackupFileCheckColumn
  | fileId | serverId | databaseName | fileName | fileType | filePath | checkedAt | checkedBy | byRunId
  | location | checksumAlgo | checksumAfterBackup | checksumNow | sizeNow | result | avScanStatus
  | avScannedAt | avScanTool | avScanToolVersion | avScanSignatureVersion | avScanServerId
  | avScanResultText | createdAt
  deriving DecidableEq

namespace BackupFileCheckColumn

def all : List BackupFileCheckColumn :=
  [.fileId, .serverId, .databaseName, .fileName, .fileType, .filePath, .checkedAt, .checkedBy, .byRunId,
   .location, .checksumAlgo, .checksumAfterBackup, .checksumNow, .sizeNow, .result, .avScanStatus,
   .avScannedAt, .avScanTool, .avScanToolVersion, .avScanSignatureVersion, .avScanServerId,
   .avScanResultText, .createdAt]

theorem mem_all (column : BackupFileCheckColumn) : column ∈ all := by
  cases column <;> simp [all]

/-- The columns a writer may set. -/
def settable : List BackupFileCheckColumn :=
  all.filter fun column => column ∉ [.createdAt]

def affinity : BackupFileCheckColumn → Affinity
  | .fileId | .sizeNow => .integer
  | _ => .text

def required : List BackupFileCheckColumn :=
  [.fileId, .serverId, .databaseName, .fileName, .fileType, .filePath, .checkedAt, .checkedBy, .byRunId,
   .location, .checksumAlgo, .createdAt]

def default (now : String) : BackupFileCheckColumn → Value
  | .databaseName | .byRunId => .text ""
  | .location => .text "source"
  | .checksumAlgo => .text "sha256"
  | .createdAt => .text now
  | _ => .null

def checks : List (Check BackupFileCheckColumn) :=
  [listed .fileType fileTypes, listed .checksumAlgo algorithms,
    nullOr .checksumAfterBackup (textLength .checksumAfterBackup 64),
    nullOr .checksumNow (textLength .checksumNow 64), nullOr .sizeNow (least .sizeNow 0),
    nullOr .result (listed .result checkResults), nullOr .avScanStatus (listed .avScanStatus avScanStatuses),
    fun row => (row .result).isSet.or ((row .checkedBy).equal (.text "av_scan")),
    listed .checkedBy BackupCatalog.checkedBy, listed .location checkLocations]

end BackupFileCheckColumn

/-- One row a later hash of a stored file. -/
def backupFileChecks : Schema BackupFileCheckColumn where
  columns := BackupFileCheckColumn.all
  complete := BackupFileCheckColumn.mem_all
  affinity := BackupFileCheckColumn.affinity
  required := BackupFileCheckColumn.required
  default := BackupFileCheckColumn.default
  checks := BackupFileCheckColumn.checks
  unique := [keyOf [.fileId, .checkedAt, .location, .checkedBy]]
  firsts := []
  firsts_default := by
    intro column first now
    cases first

/-! ## `restore_runs` -/

inductive RestoreRunColumn
  | action | restoreId | jobRunId | sourceServerId | targetServerId | targetFolder | pointInTime | tier
  | nodeHost | appVersion | startedAt | endedAt | phase | chainFiles | filesMatched | filesRecopied
  | copyMaxRetry | refusedReason | databasesOk | databasesFailed | errorText | createdAt
  deriving DecidableEq

namespace RestoreRunColumn

def all : List RestoreRunColumn :=
  [.action, .restoreId, .jobRunId, .sourceServerId, .targetServerId, .targetFolder, .pointInTime, .tier,
   .nodeHost, .appVersion, .startedAt, .endedAt, .phase, .chainFiles, .filesMatched, .filesRecopied,
   .copyMaxRetry, .refusedReason, .databasesOk, .databasesFailed, .errorText, .createdAt]

theorem mem_all (column : RestoreRunColumn) : column ∈ all := by
  cases column <;> simp [all]

/-- The columns a writer may set. -/
def settable : List RestoreRunColumn :=
  all.filter fun column => column ∉ [.createdAt]

def affinity : RestoreRunColumn → Affinity
  | .jobRunId | .chainFiles | .filesMatched | .filesRecopied | .copyMaxRetry | .databasesOk | .databasesFailed => .integer
  | _ => .text

def required : List RestoreRunColumn :=
  [.action, .restoreId, .sourceServerId, .targetServerId, .targetFolder, .pointInTime, .nodeHost,
   .appVersion, .startedAt, .phase, .chainFiles, .filesMatched, .filesRecopied, .copyMaxRetry,
   .refusedReason, .errorText, .createdAt]

def default (now : String) : RestoreRunColumn → Value
  | .restoreId | .targetFolder | .nodeHost | .appVersion | .refusedReason | .errorText => .text ""
  | .pointInTime => .text "LATEST"
  | .phase => .text "planning"
  | .chainFiles | .filesMatched | .filesRecopied => .integer 0
  | .createdAt => .text now
  | _ => .null

def checks : List (Check RestoreRunColumn) :=
  [listed .phase restorePhases, least .chainFiles 0, least .filesMatched 0, least .filesRecopied 0,
    least .copyMaxRetry 0, fun row => (row .copyMaxRetry).atMost (.integer maxCopyMaxRetry),
    listed .action runActions]

end RestoreRunColumn

/-- One row a restore or a copy. -/
def restoreRuns : Schema RestoreRunColumn where
  columns := RestoreRunColumn.all
  complete := RestoreRunColumn.mem_all
  affinity := RestoreRunColumn.affinity
  required := RestoreRunColumn.required
  default := RestoreRunColumn.default
  checks := RestoreRunColumn.checks
  unique := [keyOf [.restoreId, .sourceServerId, .targetServerId, .startedAt]]
  firsts := []
  firsts_default := by
    intro column first now
    cases first

/-! ## `restore_run_files` -/

inductive RestoreRunFileColumn
  | restoreRunId | fileId | sourceServerId | targetServerId | databaseName | engine | fileName | fileType
  | sourcePath | targetPath | sourceHostPath | targetHostPath | backupTakenAt | chainPosition | sourceOnDisk
  | sourceChecksumMatches | sourceCheckedAt | targetOnDisk | targetChecksumMatches | targetCheckedAt
  | sizeSourceBytes | sizeTargetBytes | checksumAlgo | checksumAfterBackup | checksumSourceBeforeCopy
  | checksumTargetBeforeCopy | checksumTargetAfterCopy | copyAttempts | copyMaxRetry | copyStartedAt
  | copyEndedAt | verdict | avScanStatus | avScannedAt | avScanTool | avScanToolVersion
  | avScanSignatureVersion | avScanServerId | avScanResultText | createdAt | updatedAt
  deriving DecidableEq

namespace RestoreRunFileColumn

def all : List RestoreRunFileColumn :=
  [.restoreRunId, .fileId, .sourceServerId, .targetServerId, .databaseName, .engine, .fileName, .fileType,
   .sourcePath, .targetPath, .sourceHostPath, .targetHostPath, .backupTakenAt, .chainPosition, .sourceOnDisk,
   .sourceChecksumMatches, .sourceCheckedAt, .targetOnDisk, .targetChecksumMatches, .targetCheckedAt,
   .sizeSourceBytes, .sizeTargetBytes, .checksumAlgo, .checksumAfterBackup, .checksumSourceBeforeCopy,
   .checksumTargetBeforeCopy, .checksumTargetAfterCopy, .copyAttempts, .copyMaxRetry, .copyStartedAt,
   .copyEndedAt, .verdict, .avScanStatus, .avScannedAt, .avScanTool, .avScanToolVersion,
   .avScanSignatureVersion, .avScanServerId, .avScanResultText, .createdAt, .updatedAt]

theorem mem_all (column : RestoreRunFileColumn) : column ∈ all := by
  cases column <;> simp [all]

/-- The columns a writer may set. -/
def settable : List RestoreRunFileColumn :=
  all.filter fun column => column ∉ [.createdAt, .updatedAt]

def affinity : RestoreRunFileColumn → Affinity
  | .restoreRunId | .fileId | .chainPosition | .sourceOnDisk | .sourceChecksumMatches | .targetOnDisk | .targetChecksumMatches | .sizeSourceBytes | .sizeTargetBytes | .copyAttempts | .copyMaxRetry => .integer
  | _ => .text

def required : List RestoreRunFileColumn :=
  [.restoreRunId, .sourceServerId, .targetServerId, .databaseName, .engine, .fileName, .fileType,
   .sourcePath, .targetPath, .sourceHostPath, .targetHostPath, .checksumAlgo, .copyAttempts, .copyMaxRetry,
   .verdict, .createdAt, .updatedAt]

def default (now : String) : RestoreRunFileColumn → Value
  | .databaseName | .engine | .sourceHostPath | .targetHostPath => .text ""
  | .checksumAlgo => .text "sha256"
  | .copyAttempts => .integer 0
  | .verdict => .text "copying"
  | .createdAt | .updatedAt => .text now
  | _ => .null

/-- No copy without the source's own hash, or a match held to the checksum its backup recorded. -/
def source : Check RestoreRunFileColumn := fun row =>
  ((row .checksumSourceBeforeCopy).isSet.or ((row .verdict).equal (.text "source_missing"))).or
    (((row .verdict).equal (.text "match")).and (row .checksumAfterBackup).isSet)

def unproven (row : RestoreRunFileColumn → Value) : Truth := ((row .verdict).oneOf provenVerdicts).map not

/-- A proven copy has the source's hash, or the backup's where the source was not read. -/
def proven : Check RestoreRunFileColumn := fun row =>
  (unproven row).or ((row .checksumTargetAfterCopy).isSet.and
    ((row .checksumTargetAfterCopy).equal ((row .checksumSourceBeforeCopy).orElse (row .checksumAfterBackup))))

/-- `ck_restore_run_files_size`. -/
def size : Check RestoreRunFileColumn := fun row =>
  (((unproven row).or (row .sizeTargetBytes).isNull).or (row .sizeSourceBytes).isNull).or
    ((row .sizeTargetBytes).equal (row .sizeSourceBytes))

def checks : List (Check RestoreRunFileColumn) :=
  [fun row => ((row .engine).equal (.text "")).or ((row .engine).oneOf engines), listed .fileType fileTypes,
    nullOr .chainPosition (least .chainPosition 1), nullOr .sourceOnDisk (flag .sourceOnDisk),
    nullOr .sourceChecksumMatches (flag .sourceChecksumMatches), nullOr .targetOnDisk (flag .targetOnDisk),
    nullOr .targetChecksumMatches (flag .targetChecksumMatches),
    nullOr .sizeSourceBytes (least .sizeSourceBytes 0), nullOr .sizeTargetBytes (least .sizeTargetBytes 0),
    listed .checksumAlgo algorithms, nullOr .checksumAfterBackup (textLength .checksumAfterBackup 64),
    nullOr .checksumSourceBeforeCopy (textLength .checksumSourceBeforeCopy 64),
    nullOr .checksumTargetBeforeCopy (textLength .checksumTargetBeforeCopy 64),
    nullOr .checksumTargetAfterCopy (textLength .checksumTargetAfterCopy 64), least .copyAttempts 0,
    least .copyMaxRetry 0, fun row => (row .copyMaxRetry).atMost (.integer maxCopyMaxRetry),
    listed .verdict runFileVerdicts, nullOr .avScanStatus (listed .avScanStatus avScanStatuses),
    source, proven, fun row => (row .copyAttempts).atMost (row .copyMaxRetry).succ, size]

end RestoreRunFileColumn

/-- One row a file a run copied. -/
def restoreRunFiles : Schema RestoreRunFileColumn where
  columns := RestoreRunFileColumn.all
  complete := RestoreRunFileColumn.mem_all
  affinity := RestoreRunFileColumn.affinity
  required := RestoreRunFileColumn.required
  default := RestoreRunFileColumn.default
  checks := RestoreRunFileColumn.checks
  unique := [keyOf [.restoreRunId, .sourcePath]]
  firsts := [.checksumAfterBackup, .checksumSourceBeforeCopy, .checksumTargetBeforeCopy,
    .checksumTargetAfterCopy, .sizeSourceBytes]
  firsts_default := by
    intro column first now
    revert column
    simp [RestoreRunFileColumn.default]

/-! ## `copy_attempts` -/

inductive CopyAttemptColumn
  | runFileId | attemptNo | sourceServerId | targetServerId | fileName | fileType | sourcePath | targetPath
  | sourceHostPath | targetHostPath | startedAt | endedAt | bytesCopied | copyEngine
  | checksumSourceBeforeCopy | checksumTargetAfterCopy | sizeTargetAfterCopy | result | errorText
  | createdAt
  deriving DecidableEq

namespace CopyAttemptColumn

def all : List CopyAttemptColumn :=
  [.runFileId, .attemptNo, .sourceServerId, .targetServerId, .fileName, .fileType, .sourcePath, .targetPath,
   .sourceHostPath, .targetHostPath, .startedAt, .endedAt, .bytesCopied, .copyEngine,
   .checksumSourceBeforeCopy, .checksumTargetAfterCopy, .sizeTargetAfterCopy, .result, .errorText, .createdAt]

theorem mem_all (column : CopyAttemptColumn) : column ∈ all := by
  cases column <;> simp [all]

/-- The columns a writer may set. -/
def settable : List CopyAttemptColumn :=
  all.filter fun column => column ∉ [.createdAt]

def affinity : CopyAttemptColumn → Affinity
  | .runFileId | .attemptNo | .bytesCopied | .sizeTargetAfterCopy => .integer
  | _ => .text

def required : List CopyAttemptColumn :=
  [.runFileId, .attemptNo, .sourceServerId, .targetServerId, .fileName, .fileType, .sourcePath, .targetPath,
   .sourceHostPath, .targetHostPath, .startedAt, .copyEngine, .checksumSourceBeforeCopy, .result, .errorText,
   .createdAt]

def default (now : String) : CopyAttemptColumn → Value
  | .sourceHostPath | .targetHostPath | .copyEngine | .errorText => .text ""
  | .createdAt => .text now
  | _ => .null

def checks : List (Check CopyAttemptColumn) :=
  [least .attemptNo 1, fun row => (row .attemptNo).atMost (.integer (maxCopyMaxRetry + 1)),
    listed .fileType fileTypes, nullOr .bytesCopied (least .bytesCopied 0),
    textLength .checksumSourceBeforeCopy 64, nullOr .checksumTargetAfterCopy (textLength .checksumTargetAfterCopy 64),
    nullOr .sizeTargetAfterCopy (least .sizeTargetAfterCopy 0), listed .result attemptResults,
    fun row => (differs (row .result) "match").or
      ((row .checksumTargetAfterCopy).equal (row .checksumSourceBeforeCopy))]

end CopyAttemptColumn

def copyAttempts : Schema CopyAttemptColumn where
  columns := CopyAttemptColumn.all
  complete := CopyAttemptColumn.mem_all
  affinity := CopyAttemptColumn.affinity
  required := CopyAttemptColumn.required
  default := CopyAttemptColumn.default
  checks := CopyAttemptColumn.checks
  unique := [keyOf [.runFileId, .attemptNo]]
  firsts := []
  firsts_default := by
    intro column first now
    cases first

end DbaBrain.Db.BackupCatalog
