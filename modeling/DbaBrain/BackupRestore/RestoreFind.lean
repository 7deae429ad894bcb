import DbaBrain.Lib.SqlServerBackupChain

/-!
# The files a restore finds

The copy takes a file's kind from its folder and names one database's chain by
the time the names record, and by modification time where a name records none.
The restore step finds a FULL, a DIFF and its LOGs in folders of its own choice
and by suffix, to a moment by the same times and for the latest by modification
time.  On Linux the time of a found file is read again in whole seconds.
-/

namespace DbaBrain.BackupRestore.RestoreFind

open DbaBrain.Foundation DbaBrain.Foundation.Selection
open DbaBrain.Lib DbaBrain.Lib.SqlServerBackupChain

/-- A backup file of one database: the database's folder, the folder in it and the name, the time the name records,
and its modification time.  No name records the epoch itself. -/
structure BackupFile where
  database : String
  folder : String
  name : String
  stamp : Option ℚ
  mtime : ℚ
  dated : stamp ≠ some 0
  deriving DecidableEq

def BackupFile.path (file : BackupFile) : String := file.database ++ "/" ++ file.folder ++ "/" ++ file.name

/-- The kind the copy gives a file. -/
def BackupFile.kind (file : BackupFile) : Option BackupKind := kindFromFolder file.folder

def backupSortTimestamp (file : BackupFile) : ℚ := file.stamp.getD file.mtime

/-- `backup_time_from_name(path.name) or mtime`. -/
def copyTimestamp (file : BackupFile) : ℚ :=
  match file.stamp with
  | some stamp => if stamp = 0 then file.mtime else stamp
  | none => file.mtime

/-- The file as the copy hands it to the chain rule. -/
def candidateOf (database : String) (file : BackupFile) : Candidate BackupFile ℚ where
  item := file
  database := database
  kind := file.kind
  timestamp := copyTimestamp file

inductive Platform
  | windows
  | linux
  deriving DecidableEq

/-- What a restore finds its files by: the machine the step runs on, the one it restores to, the folder of the FULLs,
and whether the entry maps the database. -/
structure Entry where
  node : Platform
  target : Platform
  fullBackupSubdir : String
  mapped : Bool

/-- `stat -c "%Y"`, or `st_mtime`. -/
def statMtime (platform : Platform) (file : BackupFile) : ℚ :=
  match platform with
  | .windows => file.mtime
  | .linux => (⌊file.mtime⌋ : ℤ)

/-! ## The folders and the suffixes -/

namespace Entry

variable (lower : String → String) (entry : Entry)

/-- A Windows step reads a Windows share whatever the case of a name. -/
def ignoresCase : Bool := entry.node = .windows && entry.target = .windows

/-- `glob` and `find -name` of every name with a suffix. -/
def endsIn (suffix : String) (file : BackupFile) : Bool :=
  suffix.toList.isSuffixOf (if entry.ignoresCase then lower file.name else file.name).toList

/-- `PurePosixPath(str(path)).parent.name`: as text, a Windows path has no parent. -/
def posixParent (file : BackupFile) : String :=
  match entry.node with
  | .windows => ""
  | .linux => file.folder

/-- The files `find_latest_full_backups` walks the import folder for. -/
def walksTo (parent : String) (file : BackupFile) : Bool :=
  entry.endsIn lower ".bak" file && lower parent = lower entry.fullBackupSubdir

/-- The FULLs in the folder of a mapped database. -/
def listsFull (file : BackupFile) : Bool :=
  entry.endsIn lower ".bak" file &&
    if entry.ignoresCase then lower file.folder = lower entry.fullBackupSubdir
    else file.folder = entry.fullBackupSubdir

def findsFull (file : BackupFile) : Bool :=
  if entry.mapped then entry.listsFull lower file else entry.walksTo lower file.folder file

def findsFullForPitr (file : BackupFile) : Bool :=
  if entry.mapped then entry.listsFull lower file
  else match entry.target with
    | .windows => entry.walksTo lower file.folder file
    | .linux => entry.walksTo lower (entry.posixParent file) file

/-- A file in the folder `DIFF` or `LOG` beside the FULL's. -/
def opens (folder : String) (file : BackupFile) : Bool :=
  if entry.ignoresCase then Text.asciiLower file.folder = Text.asciiLower folder else file.folder = folder

def findsDiff (file : BackupFile) : Bool := entry.opens "DIFF" file && entry.endsIn lower ".bak" file

def findsLog (file : BackupFile) : Bool := entry.opens "LOG" file && entry.endsIn lower ".trn" file

variable {lower entry} {file : BackupFile}

theorem kind_of_opens {folder : String} (opened : entry.opens folder file = true)
    (blankless : ∀ c ∈ (Text.asciiLower folder).toList, Text.isSpace c = false) : file.kind = kindFromFolder folder := by
  unfold opens at opened
  split at opened
  · exact kindFromFolder_of_asciiLower (of_decide_eq_true opened) blankless
  · rw [BackupFile.kind, of_decide_eq_true opened]

theorem kind_of_findsDiff (found : entry.findsDiff lower file = true) : file.kind = some .diff := by
  rw [findsDiff, Bool.and_eq_true] at found
  exact (kind_of_opens found.1 (by simp [Text.asciiLower, Text.isSpace])).trans kindFromFolder_diff

theorem kind_of_findsLog (found : entry.findsLog lower file = true) : file.kind = some .log := by
  rw [findsLog, Bool.and_eq_true] at found
  exact (kind_of_opens found.1 (by simp [Text.asciiLower, Text.isSpace])).trans kindFromFolder_log

end Entry

/-! ## To a moment -/

section PointInTime

variable (lower : String → String) (entry : Entry)

/-- The time a baseline is read with. -/
def baselineTimestamp (file : BackupFile) : ℚ := file.stamp.getD (statMtime entry.target file)

/-- A path as the two listings sort it. -/
def sortedPath (path : String) : String :=
  match entry.target with
  | .windows => lower path
  | .linux => path

def fullsAtOrBefore (moment : ℚ) (staged : List BackupFile) : List BackupFile :=
  staged.filter fun file => entry.findsFullForPitr lower file && backupSortTimestamp file ≤ moment

def getFullBackupForPitr (moment : ℚ) (staged : List BackupFile) : Option BackupFile :=
  if entry.mapped then
    (fullsAtOrBefore lower entry moment staged).argmax fun file => toLex (backupSortTimestamp file, lower file.path)
  else
    ((fullsAtOrBefore lower entry moment staged).argmax backupSortTimestamp).filter fun file =>
      baselineTimestamp entry file ≤ moment

def findRestoreDiffBackupForPitr (moment : ℚ) (full : BackupFile) (staged : List BackupFile) : Option BackupFile :=
  (sortedBy (fun file => toLex (backupSortTimestamp file, sortedPath lower entry file.path))
    (staged.filter fun file => entry.findsDiff lower file && baselineTimestamp entry full ≤ backupSortTimestamp file &&
      backupSortTimestamp file ≤ moment)).getLast?

/-- Why a restore to a moment finds no files. -/
inductive Refusal
  | noFull
  | noLogs
  | beyondLogs
  deriving DecidableEq

def logEntries (baseline : BackupFile) (staged : List BackupFile) : List BackupFile :=
  sortedBy (fun file => toLex (backupSortTimestamp file, sortedPath lower entry file.path))
    (staged.filter fun file => entry.findsLog lower file && baselineTimestamp entry baseline ≤ backupSortTimestamp file)

def findRestoreLogBackupsForPitr (moment : ℚ) (baseline : BackupFile) (staged : List BackupFile) :
    Except Refusal (List BackupFile) :=
  let taken := throughFirst (fun file => moment ≤ backupSortTimestamp file) (logEntries lower entry baseline staged)
  match taken.getLast? with
  | none => .error .noLogs
  | some last => if backupSortTimestamp last < moment then .error .beyondLogs else .ok taken

/-- The files the restore step takes to a moment, in the order it restores them. -/
def pointInTimeFiles (moment : ℚ) (staged : List BackupFile) : Except Refusal (List BackupFile) :=
  match getFullBackupForPitr lower entry moment staged with
  | none => .error .noFull
  | some full =>
      let diff := findRestoreDiffBackupForPitr lower entry moment full staged
      (findRestoreLogBackupsForPitr lower entry moment (diff.getD full) staged).map fun logs =>
        full :: diff.toList ++ logs

end PointInTime

/-! ## To the latest -/

section Latest

variable (lower : String → String) (entry : Entry)

/-- The order FULLs are put in; only the listing of a Linux folder sorts equal times by path. -/
def latestKey (file : BackupFile) : Lex (ℚ × String) :=
  match entry.target with
  | .windows => toLex (file.mtime, "")
  | .linux => toLex (file.mtime, if entry.mapped then lower file.path else "")

/-- `cutoff is None or mtime >= cutoff`. -/
def recent (cutoff : Option ℚ) (file : BackupFile) : Bool :=
  match cutoff with
  | none => true
  | some cutoff => cutoff ≤ file.mtime

/-- The walk over a Linux import folder keeps the newest FULL since the epoch. -/
def sinceEpoch (file : BackupFile) : Bool :=
  match entry.target with
  | .windows => true
  | .linux => entry.mapped || 0 < file.mtime

/-- A FULL the restore to the latest may take. -/
def takesFull (cutoff : Option ℚ) (file : BackupFile) : Bool :=
  entry.findsFull lower file && recent cutoff file && sinceEpoch entry file

def getLatestFullBackup (cutoff : Option ℚ) (staged : List BackupFile) : Option BackupFile :=
  (staged.filter (takesFull lower entry cutoff)).argmax (latestKey lower entry)

def findRestoreDiffBackup (full : BackupFile) (staged : List BackupFile) : Option BackupFile :=
  (sortedBy (fun file => toLex (file.mtime, lower file.path))
    (staged.filter fun file => entry.findsDiff lower file && statMtime entry.target full ≤ file.mtime)).getLast?

def findRestoreLogBackups (baseline : BackupFile) (staged : List BackupFile) : List BackupFile :=
  sortedBy (fun file => toLex (file.mtime, lower file.path))
    (staged.filter fun file => entry.findsLog lower file && statMtime entry.target baseline ≤ file.mtime)

/-- The files the restore step takes to the latest; it takes none where no FULL is recent. -/
def latestFiles (cutoff : Option ℚ) (staged : List BackupFile) : List BackupFile :=
  match getLatestFullBackup lower entry cutoff staged with
  | none => []
  | some full =>
      let diff := findRestoreDiffBackup lower entry full staged
      full :: diff.toList ++ findRestoreLogBackups lower entry (diff.getD full) staged

end Latest

/-! ## What the copy chose -/

@[simp]
theorem copyTimestamp_eq (file : BackupFile) : copyTimestamp file = backupSortTimestamp file := by
  unfold copyTimestamp backupSortTimestamp
  cases stamped : file.stamp with
  | none => rfl
  | some stamp =>
    have late : stamp ≠ 0 := by
      rintro rfl
      exact file.dated stamped
    exact if_neg late

def logFiles (moment : Option ℚ) (baseline : ℚ) (listing : List BackupFile) : List BackupFile :=
  let after := sortedBy backupSortTimestamp
    (listing.filter fun file => file.kind = some .log && baseline ≤ backupSortTimestamp file)
  match moment with
  | none => after
  | some moment => throughFirst (fun file => moment ≤ backupSortTimestamp file) after

def newestFull (moment : Option ℚ) (listing : List BackupFile) : Option BackupFile :=
  (listing.filter fun file => file.kind = some .full && atOrBefore moment (backupSortTimestamp file)).argmax
    backupSortTimestamp

def newestDiff (moment : Option ℚ) (full : BackupFile) (listing : List BackupFile) : Option BackupFile :=
  (listing.filter fun file => file.kind = some .diff && backupSortTimestamp full ≤ backupSortTimestamp file &&
    atOrBefore moment (backupSortTimestamp file)).argmax backupSortTimestamp

structure CopiedChain (listing : List BackupFile) (moment : Option ℚ) (full : BackupFile) (diff : Option BackupFile)
    (logs : List BackupFile) : Prop where
  full_eq : newestFull moment listing = some full
  diff_eq : newestDiff moment full listing = diff
  logs_eq : logs = logFiles moment (backupSortTimestamp (diff.getD full)) listing

variable {listing : List BackupFile} {moment : Option ℚ}

theorem newestFull_eq_none (nothing : newestFull moment listing = none) {file : BackupFile} (member : file ∈ listing)
    (is_full : file.kind = some .full) : atOrBefore moment (backupSortTimestamp file) = false := by
  have empty := List.filter_eq_nil_iff.mp (List.argmax_eq_none.mp nothing) file member
  simpa [is_full] using empty

theorem mem_logFiles {baseline : ℚ} {log : BackupFile} (member : log ∈ logFiles moment baseline listing) :
    log ∈ listing ∧ log.kind = some .log ∧ baseline ≤ backupSortTimestamp log := by
  have after : log ∈ sortedBy backupSortTimestamp
      (listing.filter fun file => file.kind = some .log && baseline ≤ backupSortTimestamp file) := by
    cases moment with
    | none => exact member
    | some moment => exact (throughFirst_sublist _ _).subset member
  simpa using after

theorem logFiles_sorted (moment : Option ℚ) (baseline : ℚ) (listing : List BackupFile) :
    (logFiles moment baseline listing).Pairwise fun first second =>
      backupSortTimestamp first ≤ backupSortTimestamp second := by
  have sorted := sortedBy_pairwise backupSortTimestamp
    (listing.filter fun file => file.kind = some .log && baseline ≤ backupSortTimestamp file)
  cases moment with
  | none => exact sorted
  | some moment => exact sorted.sublist (throughFirst_sublist _ _)

namespace CopiedChain

variable {listing : List BackupFile} {moment : Option ℚ} {full : BackupFile} {diff : Option BackupFile}
  {logs : List BackupFile} (chain : CopiedChain listing moment full diff logs)

include chain

theorem full_spec :
    full ∈ listing ∧ full.kind = some .full ∧ atOrBefore moment (backupSortTimestamp full) = true := by
  simpa using List.mem_filter.mp (List.argmax_mem (Option.mem_def.mpr chain.full_eq))

variable {other file : BackupFile}

theorem full_newest (there : other ∈ listing) (is_full : other.kind = some .full)
    (admitted : atOrBefore moment (backupSortTimestamp other) = true) :
    backupSortTimestamp other ≤ backupSortTimestamp full := by
  refine List.le_of_mem_argmax (List.mem_filter.mpr ⟨there, ?_⟩) (Option.mem_def.mpr chain.full_eq)
  rw [is_full, admitted]
  rfl

theorem diff_spec (chosen : diff = some file) :
    file ∈ listing ∧ file.kind = some .diff ∧ backupSortTimestamp full ≤ backupSortTimestamp file ∧
      atOrBefore moment (backupSortTimestamp file) = true := by
  have found := chain.diff_eq.trans chosen
  simpa [and_assoc] using List.mem_filter.mp (List.argmax_mem (Option.mem_def.mpr found))

theorem diff_newest (there : other ∈ listing) (is_diff : other.kind = some .diff)
    (since : backupSortTimestamp full ≤ backupSortTimestamp other)
    (admitted : atOrBefore moment (backupSortTimestamp other) = true) :
    ∃ file, diff = some file ∧ backupSortTimestamp other ≤ backupSortTimestamp file := by
  have candidate : other ∈ listing.filter fun file => file.kind = some .diff &&
      backupSortTimestamp full ≤ backupSortTimestamp file && atOrBefore moment (backupSortTimestamp file) := by
    rw [List.mem_filter, is_diff, admitted, decide_eq_true since]
    exact ⟨there, rfl⟩
  have found := chain.diff_eq
  cases chosen : diff with
  | none =>
    rw [List.argmax_eq_none.mp (found.trans chosen)] at candidate
    cases candidate
  | some file => exact ⟨file, rfl, List.le_of_mem_argmax candidate (Option.mem_def.mpr (found.trans chosen))⟩

theorem full_le_baseline : backupSortTimestamp full ≤ backupSortTimestamp (diff.getD full) := by
  cases chosen : diff with
  | none => exact le_refl _
  | some file => exact (chain.diff_spec chosen).2.2.1

theorem mem_logs {log : BackupFile} (member : log ∈ logs) :
    log ∈ listing ∧ log.kind = some .log ∧ backupSortTimestamp (diff.getD full) ≤ backupSortTimestamp log := by
  rw [chain.logs_eq] at member
  exact mem_logFiles member

theorem files_sorted : (full :: diff.toList ++ logs).Pairwise fun first second =>
    backupSortTimestamp first ≤ backupSortTimestamp second := by
  have sorted : logs.Pairwise fun first second => backupSortTimestamp first ≤ backupSortTimestamp second := by
    rw [chain.logs_eq]
    exact logFiles_sorted _ _ _
  have later : ∀ log ∈ logs, backupSortTimestamp (diff.getD full) ≤ backupSortTimestamp log :=
    fun log member => (chain.mem_logs member).2.2
  have below := chain.full_le_baseline
  cases chosen : diff with
  | none =>
    rw [chosen] at later
    exact List.pairwise_cons.mpr ⟨later, sorted⟩
  | some file =>
    rw [chosen] at later below
    refine List.pairwise_cons.mpr ⟨?_, List.pairwise_cons.mpr ⟨later, sorted⟩⟩
    intro next member
    rcases List.mem_cons.mp member with rfl | among
    · exact below
    · exact below.trans (later next among)

theorem files_subset (member : file ∈ full :: diff.toList ++ logs) : file ∈ listing := by
  rcases List.mem_append.mp member with baseline | log
  · rcases List.mem_cons.mp baseline with rfl | chosen
    · exact chain.full_spec.1
    · exact (chain.diff_spec (Option.mem_toList.mp chosen)).1
  · exact (chain.mem_logs log).1

end CopiedChain

section Copied

variable {lower : String → String} {database : String} {listing : List BackupFile} {moment : Option ℚ}

def copiedFiles (lower : String → String) (database : String) (listing : List BackupFile) (moment : Option ℚ) :
    List BackupFile :=
  (restoreChain lower (listing.map (candidateOf database)) moment).selected

@[simp]
theorem candidateOf_timestamp (file : BackupFile) :
    (candidateOf database file).timestamp = backupSortTimestamp file :=
  copyTimestamp_eq file

theorem cutLogs_map (baseline : ℚ) :
    cutLogs moment (logsAfter baseline (listing.map (candidateOf database))) =
      (logFiles moment baseline listing).map (candidateOf database) := by
  have sorted : logsAfter baseline (listing.map (candidateOf database)) =
      (sortedBy backupSortTimestamp (listing.filter fun file => file.kind = some .log &&
        baseline ≤ backupSortTimestamp file)).map (candidateOf database) := by
    unfold logsAfter
    rw [List.filter_map, sortedBy, sortedBy]
    have kept : (fun c : Candidate BackupFile ℚ => (c.kind = some .log && baseline ≤ c.timestamp : Bool)) ∘
        candidateOf database = fun file => (file.kind = some .log && baseline ≤ backupSortTimestamp file : Bool) := by
      funext file
      simp only [Function.comp_apply, candidateOf_timestamp]
      rfl
    rw [kept]
    symm
    apply List.map_insertionSort
    intro first _ second _
    rw [candidateOf_timestamp, candidateOf_timestamp]
  rw [sorted]
  cases moment with
  | none => rfl
  | some moment =>
    rw [cutLogs, throughFirst_map]
    simp only [candidateOf_timestamp]
    rfl

theorem chainOf_map : chainOf moment (listing.map (candidateOf database)) =
    (newestFull moment listing).map fun full =>
      ⟨candidateOf database full, (newestDiff moment full listing).map (candidateOf database),
        (logFiles moment (backupSortTimestamp ((newestDiff moment full listing).getD full)) listing).map
          (candidateOf database)⟩ := by
  have fulls : (fullsOf moment (listing.map (candidateOf database))).argmax Candidate.timestamp =
      (newestFull moment listing).map (candidateOf database) := by
    unfold fullsOf newestFull
    rw [List.filter_map, argmax_map]
    simp only [Function.comp_def, candidateOf_timestamp]
    rfl
  have diffs (full : BackupFile) :
      (diffsOf moment (candidateOf database full) (listing.map (candidateOf database))).argmax Candidate.timestamp =
        (newestDiff moment full listing).map (candidateOf database) := by
    unfold diffsOf newestDiff
    rw [List.filter_map, argmax_map]
    simp only [Function.comp_def, candidateOf_timestamp]
    rfl
  unfold chainOf chainFrom
  rw [fulls, Option.map_map]
  congr 1
  funext full
  have baseline : ((newestDiff moment full listing).map (candidateOf database)).getD (candidateOf database full) =
      candidateOf database ((newestDiff moment full listing).getD full) := by
    cases newestDiff moment full listing <;> rfl
  dsimp only [Function.comp_apply]
  rw [diffs, baseline, candidateOf_timestamp, cutLogs_map]

theorem selected_eq : copiedFiles lower database listing moment =
    (sortedBy (fun c => toLex (c.timestamp, lower c.database))
      (chosenFiles moment (listing.map (candidateOf database)))).map Candidate.item := by
  have named : ∀ c ∈ listing.map (candidateOf database), lower c.database = lower database := by
    intro c member
    obtain ⟨file, -, rfl⟩ := List.mem_map.mp member
    rfl
  have every : filesOf lower (listing.map (candidateOf database)) (lower database) =
      listing.map (candidateOf database) := by
    rw [filesOf, List.filter_eq_self]
    intro c member
    exact decide_eq_true (named c member)
  have one : (byDatabase lower (listing.map (candidateOf database))).flatMap (fun entry => chosenFiles moment entry.2) =
      chosenFiles moment (listing.map (candidateOf database)) := by
    rw [byDatabase_eq, List.flatMap_map, flatMap_of_unique ((sortedBy_perm id _).nodup_iff.mpr (keysOf_nodup lower _))
      (lower database), every]
    · intro key member differ
      obtain ⟨c, among, rfl⟩ := mem_keysOf.mp ((mem_sortedBy _ _ _).mp member)
      exact absurd (named c among) differ
    · intro absent
      rw [mem_sortedBy] at absent
      rw [filesOf_eq_nil absent]
      rfl
  unfold copiedFiles restoreChain
  simp only [one]

/-- The copy selects nothing where no FULL is admitted, and one chain in its own order otherwise. -/
theorem copiedFiles_cases (lower : String → String) (database : String) (listing : List BackupFile)
    (moment : Option ℚ) :
    (newestFull moment listing = none ∧ copiedFiles lower database listing moment = []) ∨
    ∃ full diff logs, CopiedChain listing moment full diff logs ∧
      copiedFiles lower database listing moment = full :: diff.toList ++ logs := by
  rw [selected_eq, chosenFiles, chainOf_map]
  cases newest : newestFull moment listing with
  | none => exact .inl ⟨rfl, rfl⟩
  | some full =>
    have chain : CopiedChain listing moment full (newestDiff moment full listing)
        (logFiles moment (backupSortTimestamp ((newestDiff moment full listing).getD full)) listing) :=
      ⟨newest, rfl, rfl⟩
    refine .inr ⟨full, _, _, chain, ?_⟩
    rw [Option.map_some, Option.map_some, Option.getD_some]
    have files : Chain.files
        (⟨candidateOf database full, (newestDiff moment full listing).map (candidateOf database),
          (logFiles moment (backupSortTimestamp ((newestDiff moment full listing).getD full)) listing).map
            (candidateOf database)⟩ : Chain BackupFile ℚ) =
        (full :: (newestDiff moment full listing).toList ++
          logFiles moment (backupSortTimestamp ((newestDiff moment full listing).getD full)) listing).map
            (candidateOf database) := by
      cases newestDiff moment full listing <;> simp [Chain.files]
    rw [files, sortedBy_eq_self, List.map_map]
    · exact List.map_id _
    · rw [List.pairwise_map]
      refine chain.files_sorted.imp ?_
      intro first second below
      rw [Prod.Lex.toLex_le_toLex', candidateOf_timestamp, candidateOf_timestamp]
      exact ⟨below, fun _ => le_refl _⟩

end Copied

end DbaBrain.BackupRestore.RestoreFind
