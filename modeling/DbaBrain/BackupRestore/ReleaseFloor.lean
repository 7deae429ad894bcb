import DbaBrain.BackupRestore.Offload

/-!
# What a release leaves on the server

The latest restore of an entry needs the chain of each database and the LOGs
written while its newest full ran.  A release deletes what ended before the
latest start of any full, so it leaves those files exactly where no full
started after one of them ended: where the newest full to end is also the last
to start, and no full is recorded as starting after it ended.
-/

namespace DbaBrain.BackupRestore.ReleaseFloor

open DbaBrain.Foundation DbaBrain.Foundation.Selection
open DbaBrain.Lib DbaBrain.Lib.SqlServerBackupChain
open DbaBrain.BackupRestore.Offload
open DbaBrain.BackupRestore.CopyGate (sameBytes)

/-! ## What the latest restore needs -/

/-- The entry's files that are on the server and intact. -/
def standing (backupId : String) (catalog : List Row) : List BackupFile :=
  (catalog.filter fun row => row.file.backupId = backupId && row.state = .present && row.file.verdict = .ok).map
    Row.file

/-- A file as the chain rule sees it. -/
def chainCandidate (file : BackupFile) : Candidate BackupFile String where
  item := file
  database := file.databaseName
  kind := file.level
  timestamp := file.endedAt

def latestChain (lower : String → String) (backupId : String) (catalog : List Row) : List BackupFile :=
  (restoreChain lower ((standing backupId catalog).map chainCandidate) none).selected

def DuringNewestFull (lower : String → String) (backupId : String) (catalog : List Row) (newest log : BackupFile) :
    Prop :=
  newest ∈ latestChain lower backupId catalog ∧ newest.level = some .full ∧ log ∈ standing backupId catalog ∧
    log.level = some .log ∧ lower log.databaseName = lower newest.databaseName ∧
      newest.chainStart ≤ log.endedAt ∧ log.endedAt ≤ newest.endedAt

def Needed (lower : String → String) (backupId : String) (catalog : List Row) (file : BackupFile) : Prop :=
  file ∈ latestChain lower backupId catalog ∨ ∃ newest, DuringNewestFull lower backupId catalog newest file

/-- Neither the files handed over for release nor the sources a release deletes, whenever its files were
handed over, are needed. -/
def KeepsLatestRestore (lower : String → String) (entry : Entry) (catalog : List Row) : Prop :=
  (∀ limit, ∀ row ∈ filesToRelease entry.backupId limit catalog, ¬Needed lower entry.backupId catalog row.file) ∧
    ∀ hosts limit earlier, ∀ file ∈ (releaseSources lower entry hosts catalog
      (filesToRelease entry.backupId limit earlier)).deleted, ¬Needed lower entry.backupId catalog file

structure FullsInOrder (lower : String → String) (backupId : String) (catalog : List Row) : Prop where
  chain : ∀ file ∈ latestChain lower backupId catalog, file.isDirectory = false →
    ∀ full ∈ standingFulls backupId file.databaseName catalog,
      full.chainStart ≤ full.endedAt ∨ full.chainStart ≤ file.endedAt
  logs : ∀ newest log, DuringNewestFull lower backupId catalog newest log →
    ∀ full ∈ standingFulls backupId log.databaseName catalog,
      full.chainStart ≤ newest.chainStart ∨ full.chainStart ≤ log.endedAt

/-! ## The floor -/

section Floor

variable {backupId databaseName : String} {catalog : List Row} {file full : BackupFile}

theorem mem_standing (member : file ∈ standing backupId catalog) : file.backupId = backupId ∧ file.verdict = .ok := by
  obtain ⟨row, among, rfl⟩ := List.mem_map.mp member
  simp only [List.mem_filter, Bool.and_eq_true, decide_eq_true_eq] at among
  exact ⟨among.2.1.1, among.2.2⟩

theorem mem_standingFulls : full ∈ standingFulls backupId databaseName catalog ↔
    full ∈ standing backupId catalog ∧ full.databaseName = databaseName ∧ full.level = some .full := by
  unfold standingFulls standing
  simp only [List.mem_map, List.mem_filter, Bool.and_eq_true, decide_eq_true_eq]
  constructor
  · rintro ⟨row, ⟨member, ⟨⟨⟨entry, name⟩, there⟩, intact⟩, level⟩, rfl⟩
    exact ⟨⟨row, ⟨member, ⟨entry, there⟩, intact⟩, rfl⟩, name, level⟩
  · rintro ⟨⟨row, ⟨member, ⟨entry, there⟩, intact⟩, rfl⟩, name, level⟩
    exact ⟨row, ⟨member, ⟨⟨⟨entry, name⟩, there⟩, intact⟩, level⟩, rfl⟩

theorem before_floor_iff {ended : String} :
    (∃ floor, chainFloor backupId databaseName catalog = some floor ∧ ended < floor) ↔
      ∃ full ∈ standingFulls backupId databaseName catalog, ended < full.chainStart := by
  unfold chainFloor
  constructor
  · rintro ⟨floor, found, before⟩
    obtain ⟨full, member, rfl⟩ := List.mem_map.mp (List.max?_mem found)
    exact ⟨full, member, before⟩
  · rintro ⟨full, member, before⟩
    have among : full.chainStart ∈ (standingFulls backupId databaseName catalog).map BackupFile.chainStart :=
      List.mem_map_of_mem member
    cases found : ((standingFulls backupId databaseName catalog).map BackupFile.chainStart).max? with
    | none =>
      rw [List.max?_eq_none_iff.mp found] at among
      cases among
    | some floor =>
      exact ⟨floor, rfl, before.trans_le ((List.max?_eq_some_iff.mp found).2 _ among)⟩

theorem chainFloor_eq_none (absent : ∀ row ∈ catalog, row.file.backupId = backupId → row.file.databaseName ≠ databaseName) :
    chainFloor backupId databaseName catalog = none := by
  have nothing : standingFulls backupId databaseName catalog = [] := by
    rw [List.eq_nil_iff_forall_not_mem]
    intro full member
    obtain ⟨row, among, rfl⟩ := List.mem_map.mp member
    simp only [List.mem_filter, Bool.and_eq_true, decide_eq_true_eq] at among
    exact absent row among.1 among.2.1.1.1.1 among.2.1.1.1.2
  rw [chainFloor, nothing]
  rfl

theorem floorOf_eq : floorOf (newestFullPerDatabase backupId catalog) databaseName =
    (chainFloor backupId databaseName catalog).getD "" := by
  unfold floorOf newestFullPerDatabase
  rw [lookup_graph]
  split
  · rfl
  · rename_i unseen
    rw [chainFloor_eq_none]
    · rfl
    · intro row member here named
      apply unseen
      rw [mem_firstSeen, List.mem_map]
      exact ⟨row, List.mem_filter.mpr ⟨member, decide_eq_true here⟩, named⟩

end Floor

theorem not_lt_empty (text : String) : ¬text < "" := by
  rw [String.lt_iff_toList_lt]
  exact List.not_lt_nil _

/-! ## What a release takes -/

section Release

variable {lower : String → String} {entry : Entry} {catalog rows : List Row} {file : BackupFile}

def Passed (backupId : String) (catalog : List Row) (file : BackupFile) : Prop :=
  file.isDirectory = false ∧ ∃ full ∈ standingFulls backupId file.databaseName catalog, file.endedAt < full.chainStart

variable {backupId : String} {released : Released} {hosts : ReleaseHosts}

theorem keepReason_eq_none :
    keepReason (newestFullPerDatabase backupId catalog) file = none ↔ Passed backupId catalog file := by
  unfold keepReason Passed
  dsimp only
  rw [floorOf_eq, BackupFile.endedText_eq, ← before_floor_iff]
  cases directory : file.isDirectory with
  | true => simp
  | false =>
    cases found : chainFloor backupId file.databaseName catalog with
    | none => simp
    | some floor =>
      rw [if_neg Bool.false_ne_true, Option.getD_some]
      rcases lt_or_ge file.endedAt floor with before | after
      · have late : ¬(floor = "" ∨ floor ≤ file.endedAt) := by
          rintro (rfl | after)
          · exact not_lt_empty _ before
          · exact after.not_gt before
        rw [if_neg late]
        exact ⟨fun _ => ⟨rfl, floor, rfl, before⟩, fun _ => rfl⟩
      · rw [if_pos (.inr after)]
        constructor
        · intro kept
          cases kept
        · rintro ⟨-, _, same, before⟩
          cases same
          exact absurd before after.not_gt

theorem passed_of_filesToRelease {limit : Nat} {row : Row} (member : row ∈ filesToRelease backupId limit catalog) :
    Passed backupId catalog row.file := by
  have among := (mem_sortedBy _ _ _).mp (List.mem_of_mem_take member)
  simp only [List.mem_filter, Bool.and_eq_true, decide_eq_true_eq, Bool.not_eq_true'] at among
  obtain ⟨-, ⟨-, directory⟩, before⟩ := among
  refine ⟨directory, before_floor_iff.mp ?_⟩
  cases found : chainFloor backupId row.file.databaseName catalog with
  | none =>
    rw [found] at before
    cases before
  | some floor =>
    rw [found] at before
    exact ⟨floor, rfl, of_decide_eq_true before⟩

theorem mem_readLines {group : List BackupFile} {lines : List (String × DeleteStatus)}
    (member : file ∈ (lines.foldl (readLine entry group) released).deleted) :
    file ∈ released.deleted ∨ file ∈ group := by
  induction lines generalizing released with
  | nil => exact .inl member
  | cons line rest ih =>
    rcases ih member with before | grouped
    · unfold readLine at before
      split at before
      · exact .inl before
      · rename_i found at_path
        have named {front : List BackupFile} (listed : file ∈ front ++ [found]) : file ∈ front ∨ file ∈ group := by
          refine (List.mem_append.mp listed).imp_right fun last => ?_
          rw [List.mem_singleton.mp last]
          exact (List.mem_filter.mp (List.mem_of_getLast? at_path)).1
        split at before
        · exact named before
        · exact named before
        · exact .inl before
    · exact .inr grouped

theorem mem_releaseRoots {roots : List (String × List BackupFile)}
    (member : file ∈ (roots.foldl (releaseRoot entry hosts) released).deleted) :
    file ∈ released.deleted ∨ ∃ root ∈ roots, file ∈ root.2 := by
  induction roots generalizing released with
  | nil => exact .inl member
  | cons root rest ih =>
    rcases ih member with before | ⟨other, there, grouped⟩
    · unfold releaseRoot at before
      split at before
      · exact .inl before
      · rcases mem_readLines before with earlier | grouped
        · exact .inl earlier
        · exact .inr ⟨root, List.mem_cons_self, grouped⟩
    · exact .inr ⟨other, List.mem_cons_of_mem _ there, grouped⟩

/-- A release deletes only what was handed over and passed the floor it reads itself. -/
theorem passed_of_deleted (member : file ∈ (releaseSources lower entry hosts catalog rows).deleted) :
    Passed entry.backupId catalog file := by
  rcases mem_releaseRoots member with nothing | ⟨root, there, grouped⟩
  · cases nothing
  · rw [groupsBy_eq] at there
    obtain ⟨key, -, rfl⟩ := List.mem_map.mp there
    obtain ⟨row, selected, rfl⟩ := List.mem_map.mp (List.mem_filter.mp grouped).1
    have unkept := (List.mem_filter.mp (List.mem_filter.mp selected).1).2
    exact keepReason_eq_none.mp (of_decide_eq_true unkept)

/-- A file and a full that started after it: the file is handed over. -/
theorem filesToRelease_copied {full : BackupFile} (entry_file : file.backupId = entry.backupId)
    (entry_full : full.backupId = entry.backupId) (same : full.databaseName = file.databaseName)
    (intact : full.verdict = .ok) (is_full : full.level = some .full) (directory : file.isDirectory = false)
    (before : file.endedAt < full.chainStart) :
    filesToRelease entry.backupId 1
        [⟨file, .present, some .verified, none, none⟩, ⟨full, .present, none, none, none⟩] =
      [⟨file, .present, some .verified, none, none⟩] := by
  have started : full ∈ standingFulls entry.backupId file.databaseName
      [⟨file, .present, some .verified, none, none⟩, ⟨full, .present, none, none, none⟩] := by
    refine mem_standingFulls.mpr ⟨?_, same, is_full⟩
    refine List.mem_map.mpr ⟨⟨full, .present, none, none, none⟩, List.mem_filter.mpr ⟨by simp, ?_⟩, rfl⟩
    simp [entry_full, intact]
  obtain ⟨floor, found, below⟩ := before_floor_iff.mpr ⟨full, started, before⟩
  unfold filesToRelease
  rw [List.filter_cons_of_pos, List.filter_cons_of_neg, List.filter_nil]
  · rfl
  · simp
  · simp only [found, entry_file, directory, decide_true, Bool.not_false, Bool.and_self, Bool.true_and,
      decide_eq_true_eq]
    exact below

/-- A file that passed is released, where its copy is proven again and its delete goes through. -/
theorem released_of_passed (lower : String → String) (passed : Passed entry.backupId catalog file)
    (stands : file ∈ standing entry.backupId catalog) :
    ∃ hosts earlier, file ∈ (releaseSources lower entry hosts catalog
      (filesToRelease entry.backupId 1 earlier)).deleted := by
  obtain ⟨directory, full, started, before⟩ := passed
  obtain ⟨full_stands, same, is_full⟩ := mem_standingFulls.mp started
  obtain ⟨entry_full, full_intact⟩ := mem_standing full_stands
  obtain ⟨entry_file, intact⟩ := mem_standing stands
  obtain ⟨sha, recorded, filled⟩ := file.hashed intact
  refine ⟨⟨fun _ => some (sha, file.sizeBytes), fun _ paths => .ok (paths.map fun path => (path, .deleted))⟩,
    [⟨file, .present, some .verified, none, none⟩, ⟨full, .present, none, none, none⟩], ?_⟩
  rw [filesToRelease_copied entry_file entry_full same full_intact is_full directory before]
  have unkept : keepReason (newestFullPerDatabase entry.backupId catalog) file = none :=
    keepReason_eq_none.mpr ⟨directory, full, started, before⟩
  have proven : sameBytes (some (sha, file.sizeBytes)) file.checksumAfterBackup file.sizeBytes = true := by
    rw [recorded]
    simp [sameBytes, filled]
  have one : (groupsBy (sourceRoot lower entry) [file]) = [(sourceRoot lower entry file, [file])] := rfl
  have path : sortedBy id (firstSeen [sourcePath entry file]) = [sourcePath entry file] := rfl
  have here : atPath entry [file] (sourcePath entry file) = some file := by simp [atPath]
  unfold releaseSources
  simp only [List.filter_cons, List.filter_nil, unkept, decide_true, if_true, proven, List.map_cons, List.map_nil,
    one, List.foldl_cons, List.foldl_nil, releaseRoot, path, readLine, here]
  simp

end Release

/-! ## What is needed lies after the newest full -/

section Needed

variable {lower : String → String} {entry : Entry} {backupId : String} {catalog : List Row} {file : BackupFile}

theorem latestChain_spec (member : file ∈ latestChain lower backupId catalog) :
    file ∈ standing backupId catalog ∧ ∃ newest : BackupFile, newest.endedAt ≤ file.endedAt ∧
      ∀ full ∈ standing backupId catalog, full.level = some .full → lower full.databaseName = lower file.databaseName →
        full.endedAt ≤ newest.endedAt := by
  obtain ⟨key, chain, found, c, among, rfl⟩ := mem_selected.mp member
  obtain ⟨⟨full_there, -⟩, newest, files⟩ := chainOf_spec found
  obtain ⟨there, after⟩ := files c among
  unfold filesOf at full_there there
  obtain ⟨listed, named⟩ := List.mem_filter.mp there
  obtain ⟨stored, stands, rfl⟩ := List.mem_map.mp listed
  obtain ⟨first, -, rest⟩ := List.mem_map.mp (List.mem_filter.mp full_there).1
  refine ⟨stands, first, ?_, ?_⟩
  · rw [← rest] at after
    exact after
  · intro full other_stands is_full same
    have candidate : chainCandidate full ∈ filesOf lower ((standing backupId catalog).map chainCandidate) key := by
      refine List.mem_filter.mpr ⟨List.mem_map_of_mem other_stands, ?_⟩
      rw [decide_eq_true_eq] at named ⊢
      exact same.trans named
    have below := newest _ candidate is_full rfl
    rw [← rest] at below
    exact below

theorem standing_of_needed (needed : Needed lower backupId catalog file) : file ∈ standing backupId catalog := by
  rcases needed with chain | ⟨newest, -, -, stands, -⟩
  · exact (latestChain_spec chain).1
  · exact stands

theorem not_isDirectory_of_isLog (is_log : file.level = some .log) : file.isDirectory = false := by
  unfold BackupFile.level at is_log
  unfold BackupFile.isDirectory
  cases type : file.fileType <;> rw [type] at is_log <;> first | rfl | cases is_log

theorem not_needed_of_passed (ordered : FullsInOrder lower backupId catalog) (passed : Passed backupId catalog file) :
    ¬Needed lower backupId catalog file := by
  obtain ⟨directory, full, started, before⟩ := passed
  obtain ⟨full_stands, same, is_full⟩ := mem_standingFulls.mp started
  rintro (chain | ⟨newest, during⟩)
  · obtain ⟨-, newest, after, above⟩ := latestChain_spec chain
    have ended : full.endedAt ≤ file.endedAt :=
      (above full full_stands is_full (congrArg lower same)).trans after
    rcases ordered.chain file chain directory full started with early | early
    · exact absurd before (early.trans ended).not_gt
    · exact absurd before early.not_gt
  · obtain ⟨-, -, -, -, -, since, -⟩ := id during
    rcases ordered.logs newest file during full started with early | early
    · exact absurd before (early.trans since).not_gt
    · exact absurd before early.not_gt

/-- A release leaves what the latest restore needs, exactly where no full started after a needed file ended. -/
theorem keepsLatestRestore_iff (lower : String → String) (entry : Entry) (catalog : List Row) :
    KeepsLatestRestore lower entry catalog ↔ FullsInOrder lower entry.backupId catalog := by
  constructor
  · rintro ⟨-, kept⟩
    have unneeded : ∀ file, Passed entry.backupId catalog file → ¬Needed lower entry.backupId catalog file := by
      intro file passed needed
      obtain ⟨hosts, earlier, released⟩ := released_of_passed lower passed (standing_of_needed needed)
      exact kept hosts 1 earlier file released needed
    refine ⟨?_, ?_⟩
    · intro file chain directory full started
      by_contra late
      rw [not_or, not_le, not_le] at late
      exact unneeded file ⟨directory, full, started, late.2⟩ (.inl chain)
    · intro newest log during full started
      by_contra late
      rw [not_or, not_le, not_le] at late
      exact unneeded log ⟨not_isDirectory_of_isLog during.2.2.2.1, full, started, late.2⟩ (.inr ⟨newest, during⟩)
  · intro ordered
    refine ⟨?_, ?_⟩
    · intro limit row member
      exact not_needed_of_passed ordered (passed_of_filesToRelease member)
    · intro hosts limit earlier file member
      exact not_needed_of_passed ordered (passed_of_deleted member)

end Needed

/-! ## Two base backups at once -/

def clusterFile (fileId : Int) (fileType : ExpiryPlan.FileType) (name started ended : String) : BackupFile where
  fileId := fileId
  backupId := "CLUSTER"
  databaseName := "shop"
  fileType := fileType
  fileName := name
  filePath := "/backup/" ++ name
  hostPath := "/backup/" ++ name
  backupStartedAt := none
  backupEndedAt := some (ended ++ "Z")
  createdAt := ended
  runStartedAt := some (started ++ "Z")
  sizeBytes := some 1
  checksumAfterBackup := some "ab"
  verdict := .ok
  dated := by
    have ends : (ended ++ "Z").toList ≠ [] := by simp
    rintro same
    exact ends (by rw [Option.some.inj same]; rfl)
  hashed := fun _ => ⟨"ab", rfl, by decide⟩

def longBase : BackupFile := clusterFile 1 .fullBase "base_1" "2026-10-30T02:00:00" "2026-10-30T05:00:00"

def shortBase : BackupFile := clusterFile 2 .fullBase "base_2" "2026-10-30T03:00:00" "2026-10-30T04:00:00"

def windowWal : BackupFile := clusterFile 3 .wal "0000000100000042" "2026-10-30T02:30:00" "2026-10-30T02:30:00"

def copiedRow (file : BackupFile) : Row := ⟨file, .present, some .verified, some ("/repo/" ++ file.fileName), none⟩

/-- The WAL written while the newest base backup ran is handed over, once another one starts after it. -/
theorem window_wal_is_released :
    ¬KeepsLatestRestore id ⟨"CLUSTER", "PG01", "/backup", "", "/repo"⟩
      [copiedRow longBase, copiedRow shortBase, copiedRow windowWal] := by
  rintro ⟨kept, -⟩
  have released : copiedRow windowWal ∈ filesToRelease "CLUSTER" 500
      [copiedRow longBase, copiedRow shortBase, copiedRow windowWal] := by decide +kernel
  have newest : longBase ∈ latestChain id "CLUSTER"
      [copiedRow longBase, copiedRow shortBase, copiedRow windowWal] := by decide +kernel
  have stands : windowWal ∈ standing "CLUSTER" [copiedRow longBase, copiedRow shortBase, copiedRow windowWal] := by
    decide +kernel
  exact kept 500 _ released (.inr ⟨longBase, newest, rfl, stands, rfl, rfl, by decide +kernel, by decide +kernel⟩)

end DbaBrain.BackupRestore.ReleaseFloor
