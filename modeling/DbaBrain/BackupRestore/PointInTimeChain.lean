import DbaBrain.BackupRestore.RestoreFind

/-!
# The chain a restore to a moment takes

Among staged files that hold the copied chain, the restore step takes the copied
FULL, DIFF and LOGs where it finds each of them by folder and suffix, and finds
no other FULL between.  A file whose name records no time, written in the
baseline's second and before it, still counts as after it: there the baseline
reads as the earlier of the two.
-/

namespace DbaBrain.BackupRestore.PointInTimeChain

open DbaBrain.Foundation.Selection
open DbaBrain.Lib
open DbaBrain.BackupRestore.RestoreFind

def Unreached (moment : ℚ) (staged : List BackupFile) : Prop :=
  ∀ log ∈ staged, log.kind = some .log → backupSortTimestamp log < moment

/-- The restore step takes the files the copy selected, or refuses where no LOG reaches the moment. -/
def TakesCopied (lower : String → String) (database : String) (entry : Entry) (moment : ℚ)
    (listing staged : List BackupFile) : Prop :=
  match pointInTimeFiles lower entry moment staged with
  | .ok files => files = copiedFiles lower database listing (some moment)
  | .error .noFull => copiedFiles lower database listing (some moment) = []
  | .error .noLogs => Unreached moment staged
  | .error .beyondLogs => Unreached moment staged

def IsFullFor (moment : ℚ) (file : BackupFile) : Prop :=
  file.kind = some .full ∧ backupSortTimestamp file ≤ moment

def IsDiffFor (moment : ℚ) (full file : BackupFile) : Prop :=
  file.kind = some .diff ∧ backupSortTimestamp full ≤ backupSortTimestamp file ∧ backupSortTimestamp file ≤ moment

/-- The file of a kind that no other is newer than. -/
def IsNewest (listing : List BackupFile) (among : BackupFile → Prop) (file : BackupFile) : Prop :=
  file ∈ listing ∧ among file ∧ ∀ other ∈ listing, among other → backupSortTimestamp other ≤ backupSortTimestamp file

/-- What the LOGs apply to: the newest DIFF since the FULL, or the FULL where there is none. -/
def IsBaseline (listing : List BackupFile) (moment : ℚ) (full baseline : BackupFile) : Prop :=
  IsNewest listing (IsDiffFor moment full) baseline ∨
    baseline = full ∧ ∀ other ∈ listing, ¬IsDiffFor moment full other

/-- A LOG since the baseline that no LOG reaching the moment lies before. -/
def IsLogFor (listing : List BackupFile) (moment : ℚ) (baseline log : BackupFile) : Prop :=
  log.kind = some .log ∧ backupSortTimestamp baseline ≤ backupSortTimestamp log ∧
    ∀ other ∈ listing, other.kind = some .log → moment ≤ backupSortTimestamp other →
      backupSortTimestamp log ≤ backupSortTimestamp other

/-- A file before a baseline that the baseline's second reading places at or after it. -/
def ReadsAfter (entry : Entry) (baseline file : BackupFile) : Prop :=
  baselineTimestamp entry baseline ≤ backupSortTimestamp file ∧
    backupSortTimestamp file < backupSortTimestamp baseline

/-- The restore step finds a FULL at or before the moment. -/
def FindsAFull (lower : String → String) (entry : Entry) (moment : ℚ) (staged : List BackupFile) : Prop :=
  ∃ file ∈ staged, entry.findsFullForPitr lower file = true ∧ backupSortTimestamp file ≤ moment

/-- The restore step finds the copied files of a FULL, and what else it finds does not come between. -/
structure ReadsAlike (lower : String → String) (entry : Entry) (moment : ℚ) (listing staged : List BackupFile)
    (full : BackupFile) : Prop where
  full_found : entry.findsFullForPitr lower full = true
  full_newest : ∀ file ∈ staged, entry.findsFullForPitr lower file = true → backupSortTimestamp file ≤ moment →
    backupSortTimestamp file ≤ backupSortTimestamp full
  diff_found : ∀ diff, IsNewest listing (IsDiffFor moment full) diff → entry.findsDiff lower diff = true
  diffs_after : ∀ file ∈ staged, entry.findsDiff lower file = true → ReadsAfter entry full file →
    ∃ diff ∈ listing, IsDiffFor moment full diff
  logs_found : ∀ baseline, IsBaseline listing moment full baseline →
    ∀ log ∈ listing, IsLogFor listing moment baseline log → entry.findsLog lower log = true
  logs_after : ∀ baseline, IsBaseline listing moment full baseline →
    ∀ file ∈ staged, entry.findsLog lower file = true → ¬ReadsAfter entry baseline file

/-- The newest FULL reads alike, and where there is none the restore step finds none. -/
def ChainReadsAlike (lower : String → String) (entry : Entry) (moment : ℚ) (listing staged : List BackupFile) : Prop :=
  (∀ full, IsNewest listing (IsFullFor moment) full → ReadsAlike lower entry moment listing staged full) ∧
    ((∀ file ∈ listing, ¬IsFullFor moment file) → ¬FindsAFull lower entry moment staged)

theorem baselineTimestamp_le (entry : Entry) (file : BackupFile) :
    baselineTimestamp entry file ≤ backupSortTimestamp file := by
  unfold baselineTimestamp backupSortTimestamp
  cases file.stamp with
  | some stamp => exact le_refl _
  | none =>
    cases entry.target with
    | windows => exact le_refl _
    | linux => exact Int.floor_le file.mtime

/-- The chain reads alike where the folders and suffixes are those the restore step looks for, and every file is read
on Windows or has a time in its name. -/
theorem chainReadsAlike_of_laidOut {lower : String → String} {entry : Entry} {moment : ℚ}
    {listing staged : List BackupFile} (subset : ∀ file ∈ staged, file ∈ listing)
    (dated : entry.target = .windows ∨ ∀ file ∈ listing, file.stamp.isSome = true)
    (laid : ∀ file ∈ listing, entry.findsFullForPitr lower file = decide (file.kind = some .full) ∧
      entry.findsDiff lower file = decide (file.kind = some .diff) ∧
        entry.findsLog lower file = decide (file.kind = some .log)) :
    ChainReadsAlike lower entry moment listing staged := by
  have alike : ∀ file ∈ listing, baselineTimestamp entry file = backupSortTimestamp file := by
    intro file member
    unfold baselineTimestamp backupSortTimestamp
    rcases dated with windows | stamped
    · rw [windows]
      rfl
    · obtain ⟨stamp, recorded⟩ := Option.isSome_iff_exists.mp (stamped file member)
      rw [recorded]
      rfl
  have never : ∀ baseline ∈ listing, ∀ file, ¬ReadsAfter entry baseline file := by
    rintro baseline member file ⟨later, before⟩
    rw [alike baseline member] at later
    exact absurd before later.not_gt
  constructor
  · rintro full ⟨member, ⟨is_full, early⟩, above⟩
    refine ⟨?_, ?_, ?_, fun file _ _ reads => absurd reads (never full member file), ?_, ?_⟩
    · rw [(laid full member).1, is_full]
      rfl
    · intro file there finds file_early
      rw [(laid file (subset file there)).1] at finds
      exact above file (subset file there) ⟨of_decide_eq_true finds, file_early⟩
    · rintro diff ⟨listed, ⟨is_diff, -⟩, -⟩
      rw [(laid diff listed).2.1, is_diff]
      rfl
    · rintro baseline - log listed ⟨is_log, -⟩
      rw [(laid log listed).2.2, is_log]
      rfl
    · rintro baseline (⟨listed, -⟩ | ⟨rfl, -⟩) file _ _
      · exact never baseline listed file
      · exact never baseline member file
  · rintro none_full ⟨file, there, finds, early⟩
    rw [(laid file (subset file there)).1] at finds
    exact none_full file (subset file there) ⟨of_decide_eq_true finds, early⟩

/-! ## The FULL found -/

section Full

variable {lower : String → String} {entry : Entry} {moment : ℚ} {staged : List BackupFile} {full : BackupFile}

theorem mem_fullsAtOrBefore {file : BackupFile} : file ∈ fullsAtOrBefore lower entry moment staged ↔
    file ∈ staged ∧ entry.findsFullForPitr lower file = true ∧ backupSortTimestamp file ≤ moment := by
  simp [fullsAtOrBefore]

theorem fullsAtOrBefore_eq_nil_iff :
    fullsAtOrBefore lower entry moment staged = [] ↔ ¬FindsAFull lower entry moment staged := by
  rw [List.eq_nil_iff_forall_not_mem]
  simp only [mem_fullsAtOrBefore, FindsAFull, not_exists]

/-- The FULL found is one of those that may be found, and none of them is newer. -/
theorem spec_of_fullFound (found : getFullBackupForPitr lower entry moment staged = some full) :
    full ∈ fullsAtOrBefore lower entry moment staged ∧
      ∀ other ∈ fullsAtOrBefore lower entry moment staged, backupSortTimestamp other ≤ backupSortTimestamp full := by
  unfold getFullBackupForPitr at found
  split at found
  · refine ⟨List.argmax_mem (Option.mem_def.mpr found), ?_⟩
    intro other member
    exact (Prod.Lex.toLex_le_toLex'.mp (List.le_of_mem_argmax member (Option.mem_def.mpr found))).1
  · have newest := (Option.filter_eq_some_iff.mp found).1
    exact ⟨List.argmax_mem (Option.mem_def.mpr newest),
      fun other member => List.le_of_mem_argmax member (Option.mem_def.mpr newest)⟩

theorem fullFound_of_above (among : full ∈ fullsAtOrBefore lower entry moment staged)
    (above : ∀ other ∈ fullsAtOrBefore lower entry moment staged, other ≠ full →
      backupSortTimestamp other < backupSortTimestamp full) :
    getFullBackupForPitr lower entry moment staged = some full := by
  unfold getFullBackupForPitr
  split
  · refine argmax_eq_of_above among ?_
    intro other member differ
    rw [Prod.Lex.toLex_lt_toLex]
    exact .inl (above other member differ)
  · rw [argmax_eq_of_above among above, Option.filter_some]
    exact if_pos (decide_eq_true ((baselineTimestamp_le entry full).trans (mem_fullsAtOrBefore.mp among).2.2))

theorem fullFound_eq_none_iff :
    getFullBackupForPitr lower entry moment staged = none ↔ ¬FindsAFull lower entry moment staged := by
  rw [← fullsAtOrBefore_eq_nil_iff]
  constructor
  · intro nothing
    cases newest : (fullsAtOrBefore lower entry moment staged).argmax backupSortTimestamp with
    | none => exact List.argmax_eq_none.mp newest
    | some file =>
      have early := (mem_fullsAtOrBefore.mp (List.argmax_mem (Option.mem_def.mpr newest))).2.2
      unfold getFullBackupForPitr at nothing
      split at nothing
      · exact List.argmax_eq_none.mp nothing
      · rw [newest, Option.filter_some, if_pos (decide_eq_true ((baselineTimestamp_le entry file).trans early))] at nothing
        cases nothing
  · intro nothing
    rw [getFullBackupForPitr, nothing]
    split <;> rfl

end Full

/-! ## The LOGs found -/

section Logs

variable {lower : String → String} {entry : Entry} {moment : ℚ} {baseline : BackupFile} {staged : List BackupFile}

theorem mem_logEntries {log : BackupFile} :
    log ∈ logEntries lower entry baseline staged ↔
      log ∈ staged ∧ entry.findsLog lower log = true ∧ baselineTimestamp entry baseline ≤ backupSortTimestamp log := by
  simp [logEntries]

theorem logEntries_sorted : (logEntries lower entry baseline staged).Pairwise fun first second =>
    backupSortTimestamp first ≤ backupSortTimestamp second := by
  refine (sortedBy_pairwise _ _).imp ?_
  intro first second below
  rw [Prod.Lex.toLex_le_toLex'] at below
  exact below.1

/-- The LOGs found end with one that reaches the moment. -/
theorem logs_ok_iff {logs : List BackupFile} :
    findRestoreLogBackupsForPitr lower entry moment baseline staged = .ok logs ↔
      throughFirst (fun file => moment ≤ backupSortTimestamp file) (logEntries lower entry baseline staged) = logs ∧
        ∃ last, logs.getLast? = some last ∧ moment ≤ backupSortTimestamp last := by
  unfold findRestoreLogBackupsForPitr
  dsimp only
  constructor
  · intro taken
    split at taken
    · cases taken
    · rename_i last found
      split at taken
      · cases taken
      · rename_i reaching
        obtain rfl := Except.ok.inj taken
        exact ⟨rfl, last, found, not_lt.mp reaching⟩
  · rintro ⟨rfl, last, found, reaching⟩
    rw [found]
    exact if_neg reaching.not_gt

theorem logs_refused (lower : String → String) (entry : Entry) (baseline : BackupFile)
    (unreached : Unreached moment staged) :
    findRestoreLogBackupsForPitr lower entry moment baseline staged = .error .noLogs ∨
      findRestoreLogBackupsForPitr lower entry moment baseline staged = .error .beyondLogs := by
  unfold findRestoreLogBackupsForPitr
  dsimp only
  split
  · exact .inl rfl
  · rename_i last found
    have taken := (throughFirst_sublist _ _).subset (List.mem_of_getLast? found)
    obtain ⟨member, is_log, -⟩ := mem_logEntries.mp taken
    exact .inr (if_pos (unreached last member (Entry.kind_of_findsLog is_log)))

theorem logs_ne_noFull : findRestoreLogBackupsForPitr lower entry moment baseline staged ≠ .error .noFull := by
  intro refused
  unfold findRestoreLogBackupsForPitr at refused
  dsimp only at refused
  split at refused
  · cases refused
  · split at refused <;> cases refused

/-- The files found are a FULL's, with the DIFF and the LOGs found for it. -/
theorem files_ok_iff {files : List BackupFile} : pointInTimeFiles lower entry moment staged = .ok files ↔
    ∃ full, getFullBackupForPitr lower entry moment staged = some full ∧ ∃ logs,
      findRestoreLogBackupsForPitr lower entry moment
          ((findRestoreDiffBackupForPitr lower entry moment full staged).getD full) staged = .ok logs ∧
        files = full :: (findRestoreDiffBackupForPitr lower entry moment full staged).toList ++ logs := by
  unfold pointInTimeFiles
  cases found : getFullBackupForPitr lower entry moment staged with
  | none => simp
  | some full =>
    cases taken : findRestoreLogBackupsForPitr lower entry moment
        ((findRestoreDiffBackupForPitr lower entry moment full staged).getD full) staged with
    | error refused => simp [taken, Except.map]
    | ok logs => simp [taken, Except.map, eq_comm]

end Logs

/-! ## The copied chain, found -/

section Chain

variable {lower : String → String} {entry : Entry} {moment : ℚ} {listing staged : List BackupFile} {full : BackupFile}
  {diff : Option BackupFile} {logs : List BackupFile}

theorem lt_of_apart (apart : (listing.map backupSortTimestamp).Nodup) {first second : BackupFile}
    (here : first ∈ listing) (there : second ∈ listing) (differ : first ≠ second)
    (below : backupSortTimestamp first ≤ backupSortTimestamp second) :
    backupSortTimestamp first < backupSortTimestamp second :=
  lt_of_le_of_ne below fun same => differ (List.inj_on_of_nodup_map apart here there same)

variable {file : BackupFile}

theorem append_inj_of_kinds {first second : Option BackupFile} {others : List BackupFile}
    (is_diff : ∀ file, first = some file → file.kind = some .diff)
    (again : ∀ file, second = some file → file.kind = some .diff) (are_logs : ∀ file ∈ logs, file.kind = some .log)
    (too : ∀ file ∈ others, file.kind = some .log) (same : first.toList ++ logs = second.toList ++ others) :
    first = second ∧ logs = others := by
  have apart {file : BackupFile} {listed : List BackupFile} (diff : file.kind = some .diff)
      (all_logs : ∀ other ∈ listed, other.kind = some .log) : file ∉ listed := by
    intro member
    have kinds := diff.symm.trans (all_logs file member)
    cases kinds
  cases first with
  | none =>
    cases second with
    | none => exact ⟨rfl, same⟩
    | some file =>
      have listed : logs = file :: others := same
      exact absurd (listed ▸ List.mem_cons_self) (apart (again file rfl) are_logs)
  | some file =>
    cases second with
    | none =>
      have listed : file :: logs = others := same
      exact absurd (listed ▸ List.mem_cons_self) (apart (is_diff file rfl) too)
    | some other =>
      have listed : file :: logs = other :: others := same
      obtain ⟨rfl, rest⟩ := List.cons.inj listed
      exact ⟨rfl, rest⟩

theorem of_diffFound (found : findRestoreDiffBackupForPitr lower entry moment full staged = some file) :
    file ∈ staged ∧ entry.findsDiff lower file = true ∧ baselineTimestamp entry full ≤ backupSortTimestamp file ∧
      backupSortTimestamp file ≤ moment := by
  simpa [and_assoc] using List.mem_filter.mp (getLast?_sortedBy_mem found)

variable (chain : CopiedChain listing (some moment) full diff logs) (apart : (listing.map backupSortTimestamp).Nodup)
  (subset : ∀ file ∈ staged, file ∈ listing) (holds : ∀ file ∈ full :: diff.toList ++ logs, file ∈ staged)

include chain

theorem full_isNewest : IsNewest listing (IsFullFor moment) full := by
  obtain ⟨member, is_full, admitted⟩ := chain.full_spec
  refine ⟨member, ⟨is_full, of_decide_eq_true admitted⟩, ?_⟩
  rintro other there ⟨other_full, early⟩
  exact chain.full_newest there other_full (decide_eq_true early)

theorem diff_isNewest (chosen : diff = some file) : IsNewest listing (IsDiffFor moment full) file := by
  obtain ⟨member, is_diff, after, admitted⟩ := chain.diff_spec chosen
  refine ⟨member, ⟨is_diff, after, of_decide_eq_true admitted⟩, ?_⟩
  rintro other there ⟨other_diff, later, early⟩
  obtain ⟨newest, found, below⟩ := chain.diff_newest there other_diff later (decide_eq_true early)
  rw [chosen] at found
  obtain rfl := Option.some.inj found
  exact below

theorem diff_isSome_iff : diff.isSome = true ↔ ∃ other ∈ listing, IsDiffFor moment full other := by
  constructor
  · intro present
    obtain ⟨file, chosen⟩ := Option.isSome_iff_exists.mp present
    obtain ⟨member, is_diff, -⟩ := diff_isNewest chain chosen
    exact ⟨file, member, is_diff⟩
  · rintro ⟨other, there, is_diff, later, early⟩
    obtain ⟨newest, found, -⟩ := chain.diff_newest there is_diff later (decide_eq_true early)
    exact Option.isSome_of_eq_some found

theorem baseline_isBaseline : IsBaseline listing moment full (diff.getD full) := by
  cases chosen : diff with
  | some file => exact .inl (diff_isNewest chain chosen)
  | none =>
    refine .inr ⟨rfl, ?_⟩
    intro other there is_diff
    have present := (diff_isSome_iff chain).mpr ⟨other, there, is_diff⟩
    rw [chosen] at present
    cases present

theorem baseline_le : backupSortTimestamp (diff.getD full) ≤ moment := by
  cases chosen : diff with
  | some newest => exact (diff_isNewest chain chosen).2.1.2.2
  | none => exact (full_isNewest chain).2.1.2

include apart

theorem eq_of_isNewest (newest : IsNewest listing (IsFullFor moment) file) : file = full := by
  obtain ⟨member, is_full, above⟩ := newest
  have here := full_isNewest chain
  have below := here.2.2 file member is_full
  have over_it := above full here.1 here.2.1
  exact List.inj_on_of_nodup_map apart member here.1 (le_antisymm below over_it)

theorem eq_diff_of_isNewest (newest : IsNewest listing (IsDiffFor moment full) file) : diff = some file := by
  obtain ⟨member, is_diff, above⟩ := newest
  obtain ⟨chosen, present⟩ := Option.isSome_iff_exists.mp ((diff_isSome_iff chain).mpr ⟨file, member, is_diff⟩)
  have here := diff_isNewest chain present
  have below := here.2.2 file member is_diff
  have over_it := above chosen here.1 here.2.1
  rw [present, List.inj_on_of_nodup_map apart member here.1 (le_antisymm below over_it)]

theorem eq_of_isBaseline {baseline : BackupFile} (is_baseline : IsBaseline listing moment full baseline) :
    baseline = diff.getD full := by
  rcases is_baseline with newest | ⟨same, nothing⟩
  · rw [eq_diff_of_isNewest chain apart newest]
    rfl
  · cases chosen : diff with
    | some file =>
      have newest := diff_isNewest chain chosen
      exact absurd newest.2.1 (nothing file newest.1)
    | none => exact same

/-- The copied LOGs are those no LOG reaching the moment lies before. -/
theorem mem_logs_iff {log : BackupFile} : log ∈ logs ↔ log ∈ listing ∧ IsLogFor listing moment (diff.getD full) log := by
  have strictly : (sortedBy backupSortTimestamp (listing.filter fun file => file.kind = some .log &&
      backupSortTimestamp (diff.getD full) ≤ backupSortTimestamp file)).Pairwise fun first second =>
        backupSortTimestamp first < backupSortTimestamp second := by
    have once : (sortedBy backupSortTimestamp (listing.filter fun file => file.kind = some .log &&
        backupSortTimestamp (diff.getD full) ≤ backupSortTimestamp file)).Nodup :=
      (sortedBy_perm _ _).nodup_iff.mpr (apart.of_map.filter _)
    refine ((sortedBy_pairwise _ _).and once).imp_of_mem ?_
    intro first second here there ordered
    have listed := List.mem_filter.mp ((mem_sortedBy _ _ _).mp here)
    have too := List.mem_filter.mp ((mem_sortedBy _ _ _).mp there)
    exact lt_of_apart apart listed.1 too.1 ordered.2 ordered.1
  rw [chain.logs_eq, logFiles]
  rw [mem_throughFirst_iff strictly]
  simp only [mem_sortedBy, List.mem_filter, Bool.and_eq_true, decide_eq_true_eq]
  constructor
  · rintro ⟨⟨listed, is_log, since⟩, first⟩
    refine ⟨listed, is_log, since, ?_⟩
    intro other there other_log reaching
    exact first other ⟨there, other_log, (baseline_le chain).trans reaching⟩ reaching
  · rintro ⟨listed, is_log, since, first⟩
    exact ⟨⟨listed, is_log, since⟩, fun other there reaching => first other there.1 there.2.1 reaching⟩

theorem readsAlike_iff : ReadsAlike lower entry moment listing staged full ↔
    (entry.findsFullForPitr lower full = true ∧ ∀ file ∈ staged, entry.findsFullForPitr lower file = true →
      backupSortTimestamp file ≤ moment → backupSortTimestamp file ≤ backupSortTimestamp full) ∧
    ((∀ file, diff = some file → entry.findsDiff lower file = true) ∧
      ∀ file ∈ staged, entry.findsDiff lower file = true → ReadsAfter entry full file → diff.isSome = true) ∧
    (∀ log ∈ logs, entry.findsLog lower log = true) ∧
      ∀ file ∈ staged, entry.findsLog lower file = true → ¬ReadsAfter entry (diff.getD full) file := by
  rw [diff_isSome_iff chain]
  constructor
  · rintro ⟨found, newest, diff_found, diffs_after, logs_found, logs_after⟩
    refine ⟨⟨found, newest⟩, ⟨fun file chosen => diff_found file (diff_isNewest chain chosen), diffs_after⟩, ?_,
      logs_after _ (baseline_isBaseline chain)⟩
    intro log member
    obtain ⟨listed, is_log⟩ := (mem_logs_iff chain apart).mp member
    exact logs_found _ (baseline_isBaseline chain) log listed is_log
  · rintro ⟨⟨found, newest⟩, ⟨diff_found, diffs_after⟩, logs_found, logs_after⟩
    refine ⟨found, newest, fun file among => diff_found file (eq_diff_of_isNewest chain apart among), diffs_after, ?_, ?_⟩
    · intro baseline is_baseline log listed is_log
      rw [eq_of_isBaseline chain apart is_baseline] at is_log
      exact logs_found log ((mem_logs_iff chain apart).mpr ⟨listed, is_log⟩)
    · intro baseline is_baseline
      rw [eq_of_isBaseline chain apart is_baseline]
      exact logs_after

include subset holds

theorem full_found_iff : getFullBackupForPitr lower entry moment staged = some full ↔
    entry.findsFullForPitr lower full = true ∧ ∀ file ∈ staged, entry.findsFullForPitr lower file = true →
      backupSortTimestamp file ≤ moment → backupSortTimestamp file ≤ backupSortTimestamp full := by
  have newest := full_isNewest chain
  constructor
  · intro found
    obtain ⟨member, above⟩ := spec_of_fullFound found
    exact ⟨(mem_fullsAtOrBefore.mp member).2.1,
      fun file there finds early => above file (mem_fullsAtOrBefore.mpr ⟨there, finds, early⟩)⟩
  · rintro ⟨finds, above⟩
    refine fullFound_of_above (mem_fullsAtOrBefore.mpr ⟨holds full List.mem_cons_self, finds, newest.2.1.2⟩) ?_
    intro other member differ
    obtain ⟨there, other_finds, early⟩ := mem_fullsAtOrBefore.mp member
    exact lt_of_apart apart (subset other there) newest.1 differ (above other there other_finds early)

omit apart holds in
theorem since_or_readsAfter (member : file ∈ staged) (finds : entry.findsDiff lower file = true)
    (later : baselineTimestamp entry full ≤ backupSortTimestamp file) (early : backupSortTimestamp file ≤ moment) :
    (∃ newest, diff = some newest ∧ backupSortTimestamp file ≤ backupSortTimestamp newest) ∨
      ReadsAfter entry full file := by
  rcases le_or_gt (backupSortTimestamp full) (backupSortTimestamp file) with since | before
  · exact .inl (chain.diff_newest (subset file member) (Entry.kind_of_findsDiff finds) since (decide_eq_true early))
  · exact .inr ⟨later, before⟩

theorem diff_found {newest : BackupFile} (chosen : diff = some newest) (finds : entry.findsDiff lower newest = true) :
    findRestoreDiffBackupForPitr lower entry moment full staged = some newest := by
  obtain ⟨listed, ⟨-, since, early⟩, -⟩ := diff_isNewest chain chosen
  have held : newest ∈ staged := by
    apply holds
    simp [chosen]
  apply getLast?_sortedBy_of_above
  · rw [List.mem_filter]
    simpa [finds] using ⟨held, (baselineTimestamp_le entry full).trans since, early⟩
  · intro other member differ
    obtain ⟨there, selected⟩ := List.mem_filter.mp member
    simp only [Bool.and_eq_true, decide_eq_true_eq] at selected
    obtain ⟨⟨other_finds, later⟩, other_early⟩ := selected
    have below : backupSortTimestamp other ≤ backupSortTimestamp newest := by
      rcases since_or_readsAfter chain subset there other_finds later other_early with ⟨_, found, below⟩ | reads
      · rw [chosen] at found
        obtain rfl := Option.some.inj found
        exact below
      · exact reads.2.le.trans since
    rw [Prod.Lex.toLex_lt_toLex]
    exact .inl (lt_of_apart apart (subset other there) listed differ below)

omit apart holds in
theorem no_diff_found_iff (without : diff = none) :
    findRestoreDiffBackupForPitr lower entry moment full staged = none ↔
      ∀ file ∈ staged, entry.findsDiff lower file = true → ¬ReadsAfter entry full file := by
  have admitted := (full_isNewest chain).2.1.2
  rw [findRestoreDiffBackupForPitr, List.getLast?_eq_none_iff, List.eq_nil_iff_forall_not_mem]
  constructor
  · intro nothing file member finds reads
    apply nothing file
    rw [mem_sortedBy, List.mem_filter]
    simpa [finds] using ⟨member, reads.1, reads.2.le.trans admitted⟩
  · intro none_reads file found
    obtain ⟨member, selected⟩ := List.mem_filter.mp ((mem_sortedBy _ _ _).mp found)
    simp only [Bool.and_eq_true, decide_eq_true_eq] at selected
    obtain ⟨⟨finds, later⟩, early⟩ := selected
    rcases since_or_readsAfter chain subset member finds later early with ⟨_, found, -⟩ | reads
    · rw [without] at found
      cases found
    · exact none_reads file member finds reads

theorem diff_found_iff : findRestoreDiffBackupForPitr lower entry moment full staged = diff ↔
    (∀ file, diff = some file → entry.findsDiff lower file = true) ∧
      ∀ file ∈ staged, entry.findsDiff lower file = true → ReadsAfter entry full file → diff.isSome = true := by
  cases chosen : diff with
  | some newest =>
    constructor
    · intro found
      refine ⟨?_, fun file _ _ _ => rfl⟩
      rintro file same
      obtain rfl := Option.some.inj same
      exact (of_diffFound found).2.1
    · rintro ⟨finds, -⟩
      exact diff_found chain apart subset holds chosen (finds newest rfl)
  | none => simpa using no_diff_found_iff chain subset chosen

/-- The LOGs found are the copied ones where each is found, and none reads as after the baseline it was written
before. -/
theorem logs_found_iff (distinct : staged.Nodup) (reached : ¬Unreached moment staged) :
    throughFirst (fun file => moment ≤ backupSortTimestamp file) (logEntries lower entry (diff.getD full) staged) = logs ↔
      (∀ log ∈ logs, entry.findsLog lower log = true) ∧
        ∀ file ∈ staged, entry.findsLog lower file = true → ¬ReadsAfter entry (diff.getD full) file := by
  constructor
  · intro same
    constructor
    · intro log member
      rw [← same] at member
      exact (mem_logEntries.mp ((throughFirst_sublist _ _).subset member)).2.1
    · rintro file member finds ⟨later, before⟩
      have entered : file ∈ logEntries lower entry (diff.getD full) staged := mem_logEntries.mpr ⟨member, finds, later⟩
      have taken := mem_throughFirst logEntries_sorted entered (before.trans_le (baseline_le chain))
      rw [same] at taken
      exact absurd (chain.mem_logs taken).2.2 before.not_ge
  · rintro ⟨all_found, none_reads⟩
    have once : (logEntries lower entry (diff.getD full) staged).Nodup :=
      (sortedBy_perm _ _).nodup_iff.mpr (distinct.filter _)
    have entries : logEntries lower entry (diff.getD full) staged =
        (sortedBy backupSortTimestamp (listing.filter fun file => file.kind = some .log &&
          backupSortTimestamp (diff.getD full) ≤ backupSortTimestamp file)).filter
            fun file => file ∈ staged && entry.findsLog lower file := by
      refine eq_of_sorted_perm ?_ ?_ logEntries_sorted ((sortedBy_pairwise backupSortTimestamp _).filter _)
      · refine (List.perm_ext_iff_of_nodup once ?_).mpr ?_
        · exact ((sortedBy_perm _ _).nodup_iff.mpr (apart.of_map.filter _)).filter _
        · intro file
          rw [mem_logEntries, List.mem_filter, mem_sortedBy, List.mem_filter]
          simp only [Bool.and_eq_true, decide_eq_true_eq]
          constructor
          · rintro ⟨member, finds, later⟩
            have since := not_lt.mp fun before => none_reads file member finds ⟨later, before⟩
            exact ⟨⟨subset file member, Entry.kind_of_findsLog finds, since⟩, member, finds⟩
          · rintro ⟨⟨-, -, since⟩, member, finds⟩
            exact ⟨member, finds, (baselineTimestamp_le entry _).trans since⟩
      · refine List.Nodup.map_on ?_ once
        intro first here second there same
        exact List.inj_on_of_nodup_map apart (subset first (mem_logEntries.mp here).1)
          (subset second (mem_logEntries.mp there).1) same
    have needed : ∀ file ∈ logs, (decide (file ∈ staged) && entry.findsLog lower file) = true := by
      intro file member
      rw [all_found file member, decide_eq_true (holds file (List.mem_append_right _ member))]
      rfl
    rw [chain.logs_eq] at needed ⊢
    rw [entries]
    refine throughFirst_filter needed ?_
    unfold Unreached at reached
    push Not at reached
    obtain ⟨log, member, is_log, late⟩ := reached
    exact ⟨log, by simpa using ⟨subset log member, is_log, (baseline_le chain).trans late⟩, decide_eq_true late⟩

omit apart holds in
/-- Where a LOG reaches the moment the copied LOGs end with one that does. -/
theorem logs_reach (reached : ¬Unreached moment staged) :
    ∃ last, logs.getLast? = some last ∧ moment ≤ backupSortTimestamp last := by
  unfold Unreached at reached
  push Not at reached
  obtain ⟨log, member, is_log, late⟩ := reached
  rw [chain.logs_eq, logFiles]
  have reaching : ∃ file ∈ sortedBy backupSortTimestamp (listing.filter fun file => file.kind = some .log &&
      backupSortTimestamp (diff.getD full) ≤ backupSortTimestamp file),
      decide (moment ≤ backupSortTimestamp file) = true :=
    ⟨log, by simpa using ⟨subset log member, is_log, (baseline_le chain).trans late⟩, decide_eq_true late⟩
  obtain ⟨last, found, at_last⟩ := getLast?_throughFirst reaching
  exact ⟨last, found, of_decide_eq_true at_last⟩

theorem files_eq_iff (distinct : staged.Nodup) (reached : ¬Unreached moment staged) :
    pointInTimeFiles lower entry moment staged = .ok (full :: diff.toList ++ logs) ↔
      ReadsAlike lower entry moment listing staged full := by
  rw [readsAlike_iff chain apart, ← full_found_iff chain apart subset holds, ← diff_found_iff chain apart subset holds,
    ← logs_found_iff chain apart subset holds distinct reached, files_ok_iff]
  constructor
  · rintro ⟨found, newest, taken, logs_ok, same⟩
    obtain ⟨rfl, rest⟩ := List.cons.inj same
    obtain ⟨rfl, -⟩ := logs_ok_iff.mp logs_ok
    obtain ⟨same_diff, same_logs⟩ := append_inj_of_kinds (fun file chosen => (chain.diff_spec chosen).2.1)
      (fun file found => Entry.kind_of_findsDiff (of_diffFound found).2.1) (fun file member => (chain.mem_logs member).2.1)
      (fun file member =>
        Entry.kind_of_findsLog (mem_logEntries.mp ((throughFirst_sublist _ _).subset member)).2.1) rest
    rw [← same_diff] at same_logs
    exact ⟨newest, same_diff.symm, same_logs.symm⟩
  · rintro ⟨newest, same_diff, same_logs⟩
    refine ⟨full, newest, logs, ?_, ?_⟩
    · rw [same_diff, logs_ok_iff]
      exact ⟨same_logs, logs_reach chain subset reached⟩
    · rw [same_diff]

end Chain

/-! ## What is taken and what is refused -/

section Taken

variable {lower : String → String} {database : String} {entry : Entry} {moment : ℚ} {listing staged : List BackupFile}

theorem takesCopied_of_not_found (nothing : ¬FindsAFull lower entry moment staged) :
    TakesCopied lower database entry moment listing staged ↔ copiedFiles lower database listing (some moment) = [] := by
  have refused : pointInTimeFiles lower entry moment staged = .error .noFull := by
    unfold pointInTimeFiles
    rw [fullFound_eq_none_iff.mpr nothing]
  unfold TakesCopied
  rw [refused]

theorem takesCopied_of_found (finds : FindsAFull lower entry moment staged) :
    TakesCopied lower database entry moment listing staged ↔ Unreached moment staged ∨
      pointInTimeFiles lower entry moment staged = .ok (copiedFiles lower database listing (some moment)) := by
  have found : ∃ full, getFullBackupForPitr lower entry moment staged = some full := by
    by_contra none_found
    exact fullFound_eq_none_iff.mp (Option.eq_none_iff_forall_ne_some.mpr (not_exists.mp none_found)) finds
  obtain ⟨full, found⟩ := found
  have files : pointInTimeFiles lower entry moment staged =
      (findRestoreLogBackupsForPitr lower entry moment
        ((findRestoreDiffBackupForPitr lower entry moment full staged).getD full) staged).map
          fun logs => full :: (findRestoreDiffBackupForPitr lower entry moment full staged).toList ++ logs := by
    unfold pointInTimeFiles
    rw [found]
  unfold TakesCopied
  rw [files]
  constructor
  · intro takes
    cases taken : findRestoreLogBackupsForPitr lower entry moment
        ((findRestoreDiffBackupForPitr lower entry moment full staged).getD full) staged with
    | ok logs =>
      rw [taken] at takes
      exact .inr (congrArg Except.ok takes)
    | error refused =>
      rw [taken] at takes
      cases refused with
      | noFull => exact absurd taken logs_ne_noFull
      | noLogs => exact .inl takes
      | beyondLogs => exact .inl takes
  · rintro (unreached | taken)
    · rcases logs_refused lower entry ((findRestoreDiffBackupForPitr lower entry moment full staged).getD full) unreached
        with refused | refused
      · rw [refused]
        exact unreached
      · rw [refused]
        exact unreached
    · rw [taken]

end Taken

def linuxEntry : Entry := ⟨.linux, .linux, "FULL", true⟩

def unstampedFull : BackupFile := ⟨"/import/Shop", "FULL", "shop.bak", none, 1007 / 10, by simp⟩

def earlierLog : BackupFile := ⟨"/import/Shop", "LOG", "shop_1.trn", none, 1003 / 10, by simp⟩

def reachingLog : BackupFile := ⟨"/import/Shop", "LOG", "shop_2.trn", none, 200, by simp⟩

theorem stamp_ne_zero : some (100 : Rat) ≠ some 0 := by simp

def stampedFull : BackupFile := ⟨"/import/Shop", "FULL", "shop.bak", some 100, 1007 / 10, stamp_ne_zero⟩

def stampedLog : BackupFile := ⟨"/import/Shop", "LOG", "shop_2.trn", some 200, 210, by simp⟩

end DbaBrain.BackupRestore.PointInTimeChain
