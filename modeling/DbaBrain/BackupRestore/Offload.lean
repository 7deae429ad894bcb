import DbaBrain.BackupRestore.CopyGate
import DbaBrain.BackupRestore.ExpiryPlan
import DbaBrain.Lib.SqlServerBackupChain

/-!
# What the offload reads and deletes

The rows of an entry's backup files, the paths of their copies on the
repository, and the two halves of a release: the rows a query hands over, and
the rows whose sources are deleted after their copies are hashed again.  A
row's file is what its backup recorded; its standing is what later passes say.
-/

namespace DbaBrain.BackupRestore.Offload

open DbaBrain.Foundation DbaBrain.Foundation.Selection
open DbaBrain.Lib
open DbaBrain.BackupRestore.ExpiryPlan (FileType levelOfFileType)
open DbaBrain.BackupRestore.CopyGate (Found sameBytes)

/-! ## The rows -/

/-- `BACKUP_FILE_STATES`. -/
inductive FileState
  | present
  | pruned
  | missing
  | mismatch
  deriving DecidableEq

/-- `BACKUP_FILE_VERDICTS`. -/
inductive FileVerdict
  | ok
  | verifyFailed
  | hashFailed
  | sizeFailed
  deriving DecidableEq

/-- `OFFLOAD_STATES`. -/
inductive OffloadState
  | pending
  | verified
  | failed
  | quarantined
  | expired
  deriving DecidableEq

/-- A file as its backup recorded it, with the start of the run it joins.  A recorded end is a moment. -/
structure BackupFile where
  fileId : Int
  backupId : String
  databaseName : String
  fileType : FileType
  fileName : String
  filePath : String
  hostPath : String
  backupStartedAt : Option String
  backupEndedAt : Option String
  createdAt : String
  runStartedAt : Option String
  sizeBytes : Option Nat
  checksumAfterBackup : Option String
  verdict : FileVerdict
  dated : backupEndedAt ≠ some ""
  hashed : verdict = .ok → ∃ sha, checksumAfterBackup = some sha ∧ sha ≠ ""
  deriving DecidableEq

/-- A row of `backup_files`. -/
structure Row where
  file : BackupFile
  state : FileState
  offloadState : Option OffloadState
  offloadPath : Option String
  sourceDeletedAt : Option String
  deriving DecidableEq

namespace BackupFile

def level (file : BackupFile) : Option BackupKind := levelOfFileType file.fileType

/-- `HASHED_MEMBER`: a base backup is a directory. -/
def isDirectory (file : BackupFile) : Bool := file.fileType = .fullBase || file.fileType = .incrBase

/-- `COALESCE(backup_ended_at, created_at)`. -/
def endedAt (file : BackupFile) : String := file.backupEndedAt.getD file.createdAt

/-- `backup_ended_at or created_at or ""`. -/
def endedText (file : BackupFile) : String :=
  match file.backupEndedAt with
  | none => file.createdAt
  | some ended => if ended = "" then file.createdAt else ended

/-- `COALESCE(fr.started_at, ff.backup_started_at, ff.backup_ended_at, ff.created_at)`. -/
def chainStart (file : BackupFile) : String :=
  ((file.runStartedAt <|> file.backupStartedAt) <|> file.backupEndedAt).getD file.createdAt

@[simp]
theorem endedText_eq (file : BackupFile) : file.endedText = file.endedAt := by
  unfold endedText endedAt
  cases recorded : file.backupEndedAt with
  | none => rfl
  | some ended =>
    have moment : ended ≠ "" := by
      rintro rfl
      exact file.dated recorded
    exact if_neg moment

end BackupFile

/-! ## Paths -/

structure Entry where
  backupId : String
  serverId : String
  backupDir : String
  sourceShare : String
  folder : String

/-- `rstrip("/")`. -/
def stripSlashes (text : String) : String :=
  String.ofList ((text.toList.reverse.dropWhile fun c => c = '/').reverse)

def norm (path : String) : String := stripSlashes (Text.replaceChar '\\' '/' path)

/-- `_relative`. -/
def relativePath (lower : String → String) (filePath root : String) : String :=
  let windows := '\\' ∈ filePath.toList ∨ filePath.toList[1]? = some ':'
  let path := norm filePath
  let base := norm root
  let probe := if windows then lower path else path
  let start := if windows then lower base else base
  if base = "" then ""
  else if (start ++ "/").toList <+: probe.toList then String.ofList (path.toList.drop (base.toList.length + 1))
  else ""

/-- `posixpath.join` of two. -/
def join (front back : String) : String :=
  if back.toList.head? = some '/' then back
  else if front = "" ∨ front.toList.getLast? = some '/' then front ++ back
  else front ++ "/" ++ back

/-- The words of `FILE_TYPES`. -/
def fileTypeText : FileType → String
  | .full => "FULL"
  | .diff => "DIFF"
  | .log => "LOG"
  | .fullBase => "FULL_BASE"
  | .incrBase => "INCR_BASE"
  | .manifest => "MANIFEST"
  | .wal => "WAL"
  | .rmanL0 => "RMAN_L0"
  | .rmanL1 => "RMAN_L1"
  | .archivelog => "ARCHIVELOG"
  | .controlfile => "CONTROLFILE"
  | .spfile => "SPFILE"
  | .cert => "CERT"

def repositoryPath (lower : String → String) (entry : Entry) (file : BackupFile) : String :=
  let relative := relativePath lower file.filePath entry.backupDir
  let kept := if relative = "" then
      (if file.databaseName = "" then fileTypeText file.fileType else file.databaseName) ++ "/" ++ file.fileName
    else relative
  join (join (stripSlashes entry.folder) entry.serverId) kept

/-- `host_path or file_path`. -/
def BackupFile.onHost (file : BackupFile) : String := if file.hostPath = "" then file.filePath else file.hostPath

/-- The path a release deletes. -/
def sourcePath (entry : Entry) (file : BackupFile) : String :=
  if entry.sourceShare = "" then file.onHost else file.filePath

def isWindows (entry : Entry) : Bool := entry.sourceShare ≠ "" || entry.backupDir.toList[1]? = some ':'

/-- The path before its last separator, or the path itself where that is no folder. -/
def parentFolder (path : String) : String :=
  let cut := path.toList.length - ((path.toList.reverse.takeWhile fun c => c ≠ '/' ∧ c ≠ '\\').length + 1)
  if 0 < cut then String.ofList (path.toList.take cut) else path

def sourceRoot (lower : String → String) (entry : Entry) (file : BackupFile) : String :=
  let relative := relativePath lower file.filePath entry.backupDir
  if relative = "" then parentFolder (if isWindows entry then file.filePath else file.onHost)
  else if isWindows entry then entry.backupDir
  else if ("/" ++ relative).toList <:+ file.onHost.toList then
    String.ofList (file.onHost.toList.take (file.onHost.toList.length - ("/" ++ relative).toList.length))
  else entry.backupDir

/-! ## What may be released -/

/-- The fulls of a database that are on the server and intact. -/
def standingFulls (backupId databaseName : String) (catalog : List Row) : List BackupFile :=
  (catalog.filter fun row => row.file.backupId = backupId && row.file.databaseName = databaseName &&
    row.state = .present && row.file.verdict = .ok && row.file.level = some .full).map Row.file

/-- `_chain_floor_sql`. -/
def chainFloor (backupId databaseName : String) (catalog : List Row) : Option String :=
  ((standingFulls backupId databaseName catalog).map BackupFile.chainStart).max?

def newestFullPerDatabase (backupId : String) (catalog : List Row) : List (String × Option String) :=
  (firstSeen ((catalog.filter fun row => row.file.backupId = backupId).map fun row => row.file.databaseName)).map
    fun databaseName => (databaseName, chainFloor backupId databaseName catalog)

def filesToRelease (backupId : String) (limit : Nat) (catalog : List Row) : List Row :=
  (sortedBy (fun row => toLex (row.file.endedAt, row.file.fileId))
    (catalog.filter fun row => row.file.backupId = backupId && row.state = .present &&
      row.offloadState = some .verified && row.sourceDeletedAt = none && !row.file.isDirectory &&
      match chainFloor backupId row.file.databaseName catalog with
      | none => false
      | some floor => row.file.endedAt < floor)).take limit

inductive DeleteStatus
  | deleted
  | notFound
  | other (status reason : String)

/-- The machines a release reaches: hashes on the repository, and the deletes under one root. -/
structure ReleaseHosts where
  repositoryHash : String → Option Found
  deleteFiles : String → List String → Except String (List (String × DeleteStatus))

structure Released where
  deleted : List BackupFile
  kept : List String
  refused : List String
  unproven : List BackupFile

/-- `newest_full.get(database) or ""`. -/
def floorOf (floors : List (String × Option String)) (databaseName : String) : String :=
  ((floors.lookup databaseName).bind id).getD ""

/-- Why a row's source stays, if it does. -/
def keepReason (floors : List (String × Option String)) (file : BackupFile) : Option String :=
  let floor := floorOf floors file.databaseName
  if file.isDirectory then
    some (file.fileName ++ ": a base backup directory - the script's chain retention owns it")
  else if floor = "" ∨ floor ≤ file.endedText then
    some (file.fileName ++ ": in the newest chain of " ++
      if file.databaseName = "" then "its database" else file.databaseName)
  else none

/-- What the check of a copy that was not proven again answers. -/
def checkAnswer (file : BackupFile) : Option Found → String
  | none => "missing"
  | some (sha, size) =>
      if sha = "" then "missing"
      else if file.checksumAfterBackup = some (Text.asciiLower sha) then
        (size.elim "None" toString) ++ " bytes, not the " ++ (file.sizeBytes.elim "None" toString) ++ " recorded"
      else "mismatch"

def rootRefusal (why : String) (file : BackupFile) : String :=
  Text.take 500 (file.fileName ++ ": delete refused - " ++ why)

def atPath (entry : Entry) (group : List BackupFile) (path : String) : Option BackupFile :=
  (group.filter fun file => sourcePath entry file = path).getLast?

def readLine (entry : Entry) (group : List BackupFile) (released : Released) (line : String × DeleteStatus) :
    Released :=
  match atPath entry group line.1 with
  | none => released
  | some file =>
      match line.2 with
      | .deleted | .notFound => { released with deleted := released.deleted ++ [file] }
      | .other status reason =>
          { released with refused := released.refused ++ [file.fileName ++ ": delete " ++ status ++ " - " ++ reason] }

/-- The deletes of the files under one root. -/
def releaseRoot (entry : Entry) (hosts : ReleaseHosts) (released : Released) (root : String × List BackupFile) :
    Released :=
  match hosts.deleteFiles root.1 (sortedBy id (firstSeen (root.2.map (sourcePath entry)))) with
  | .error why => { released with refused := released.refused ++ root.2.map (rootRefusal why) }
  | .ok lines => lines.foldl (readLine entry root.2) released

/-- `release_sources`, of the files a query handed over earlier. -/
def releaseSources (lower : String → String) (entry : Entry) (hosts : ReleaseHosts) (catalog rows : List Row) :
    Released :=
  let floors := newestFullPerDatabase entry.backupId catalog
  let kept := rows.filterMap fun row => keepReason floors row.file
  let candidates := rows.filter fun row => keepReason floors row.file = none
  let foundAt (row : Row) := hosts.repositoryHash (row.offloadPath.getD "None")
  let proven (row : Row) := sameBytes (foundAt row) row.file.checksumAfterBackup row.file.sizeBytes
  let unproven := candidates.filter fun row => !proven row
  let refused := unproven.map fun row =>
    row.file.fileName ++ ": repository copy " ++ checkAnswer row.file (foundAt row)
  let toDelete := (candidates.filter proven).map Row.file
  (groupsBy (sourceRoot lower entry) toDelete).foldl (releaseRoot entry hosts)
    ⟨[], kept, refused, unproven.map Row.file⟩

end DbaBrain.BackupRestore.Offload
