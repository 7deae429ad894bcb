import DbaBrain.BackupRestore.RestoreFind

/-!
# The chain a restore to the latest takes

The copy orders a listing by the times the names record, the restore step by
modification times and only FULLs inside its window, and the two tell a file's
kind apart in ways of their own.  Whatever else of the listing is staged, the
restore takes the copied files exactly where both agree on the FULL, on the
DIFF and on the LOGs after them.
-/

namespace DbaBrain.BackupRestore.LatestChain

open DbaBrain.Foundation.Selection
open DbaBrain.Lib
open DbaBrain.BackupRestore.RestoreFind

/-- Whatever holds the copied files and comes from the listing, the restore step takes the copied files of it. -/
def TakesCopied (lower : String → String) (database : String) (entry : Entry) (cutoff : Option ℚ)
    (listing : List BackupFile) : Prop :=
  ∀ staged, (∀ file ∈ copiedFiles lower database listing none, file ∈ staged) → (∀ file ∈ staged, file ∈ listing) →
    ∀ file, file ∈ latestFiles lower entry cutoff staged ↔ file ∈ copiedFiles lower database listing none

/-- The order DIFFs and LOGs are restored in. -/
def writtenKey (lower : String → String) (file : BackupFile) : Lex (ℚ × String) := toLex (file.mtime, lower file.path)

/-- The restore step finds the copied FULL, DIFF and LOGs, and by modification time picks no others. -/
structure ClocksAgree (lower : String → String) (entry : Entry) (cutoff : Option ℚ) (listing : List BackupFile)
    (full : BackupFile) (diff : Option BackupFile) : Prop where
  full_taken : takesFull lower entry cutoff full = true
  full_last : ∀ other ∈ listing, entry.findsFull lower other = true → other ≠ full →
    latestKey lower entry other < latestKey lower entry full
  diff_after : ∀ file, diff = some file → entry.findsDiff lower file = true ∧ statMtime entry.target full ≤ file.mtime
  diff_last : ∀ other ∈ listing, entry.findsDiff lower other = true → statMtime entry.target full ≤ other.mtime →
    diff = some other ∨ ∃ file, diff = some file ∧ writtenKey lower other < writtenKey lower file
  logs_alike : ∀ log ∈ listing,
    entry.findsLog lower log = true ∧ statMtime entry.target (diff.getD full) ≤ log.mtime ↔
      log.kind = some .log ∧ backupSortTimestamp (diff.getD full) ≤ backupSortTimestamp log

section Found

variable {lower : String → String} {database : String} {entry : Entry} {cutoff : Option ℚ}
  {listing staged : List BackupFile} {full file : BackupFile} {diff : Option BackupFile} {logs : List BackupFile}

theorem findsFull_of_takesFull (takes : takesFull lower entry cutoff file = true) : entry.findsFull lower file = true := by
  rw [takesFull, Bool.and_eq_true, Bool.and_eq_true] at takes
  exact takes.1.1

/-- A FULL no older than one that may be taken may be taken itself. -/
theorem takesFull_of_later {later : BackupFile} (takes : takesFull lower entry cutoff file = true)
    (finds : entry.findsFull lower later = true) (after : file.mtime ≤ later.mtime) :
    takesFull lower entry cutoff later = true := by
  rw [takesFull, Bool.and_eq_true, Bool.and_eq_true] at takes
  obtain ⟨⟨-, fresh⟩, since⟩ := takes
  have fresh_too : recent cutoff later = true := by
    cases cutoff with
    | none => rfl
    | some cutoff => exact decide_eq_true ((of_decide_eq_true fresh).trans after)
  have since_too : sinceEpoch entry later = true := by
    unfold sinceEpoch at since ⊢
    cases target : entry.target with
    | windows => rfl
    | linux =>
      rw [target] at since
      simp only [Bool.or_eq_true, decide_eq_true_eq] at since ⊢
      exact since.imp_right fun above => above.trans_le after
  rw [takesFull, finds, fresh_too, since_too]
  rfl

theorem of_fullFound (found : getLatestFullBackup lower entry cutoff staged = some full) :
    full ∈ staged ∧ takesFull lower entry cutoff full = true :=
  List.mem_filter.mp (List.argmax_mem (Option.mem_def.mpr found))

theorem of_diffFound (found : findRestoreDiffBackup lower entry full staged = some file) :
    file ∈ staged ∧ entry.findsDiff lower file = true ∧ statMtime entry.target full ≤ file.mtime := by
  simpa using List.mem_filter.mp (getLast?_sortedBy_mem found)

theorem mem_logsFound {baseline log : BackupFile} : log ∈ findRestoreLogBackups lower entry baseline staged ↔
    log ∈ staged ∧ entry.findsLog lower log = true ∧ statMtime entry.target baseline ≤ log.mtime := by
  simp [findRestoreLogBackups]

theorem mem_files {found : Option BackupFile} {taken : List BackupFile} :
    file ∈ full :: found.toList ++ taken ↔ file = full ∨ found = some file ∨ file ∈ taken := by
  cases found <;> simp [eq_comm]

/-! ### Where the clocks agree -/

theorem full_found (held : full ∈ staged) (taken : takesFull lower entry cutoff full = true)
    (last : ∀ other ∈ staged, entry.findsFull lower other = true → other ≠ full →
      latestKey lower entry other < latestKey lower entry full) :
    getLatestFullBackup lower entry cutoff staged = some full := by
  refine argmax_eq_of_above (List.mem_filter.mpr ⟨held, taken⟩) ?_
  intro other member differ
  obtain ⟨there, takes⟩ := List.mem_filter.mp member
  exact last other there (findsFull_of_takesFull takes) differ

theorem diff_found (spec : ∀ file, diff = some file → file ∈ staged ∧ entry.findsDiff lower file = true ∧
      statMtime entry.target full ≤ file.mtime)
    (last : ∀ other ∈ staged, entry.findsDiff lower other = true → statMtime entry.target full ≤ other.mtime →
      diff = some other ∨ ∃ file, diff = some file ∧ writtenKey lower other < writtenKey lower file) :
    findRestoreDiffBackup lower entry full staged = diff := by
  unfold findRestoreDiffBackup
  cases chosen : diff with
  | none =>
    rw [List.getLast?_eq_none_iff, List.eq_nil_iff_forall_not_mem]
    intro other member
    have selected := (mem_sortedBy _ _ _).mp member
    simp only [List.mem_filter, Bool.and_eq_true, decide_eq_true_eq] at selected
    obtain ⟨there, finds, after⟩ := selected
    rcases last other there finds after with same | ⟨_, some_file, -⟩
    · rw [chosen] at same
      cases same
    · rw [chosen] at some_file
      cases some_file
  | some file =>
    obtain ⟨held, finds, after⟩ := spec file chosen
    apply getLast?_sortedBy_of_above
    · simpa using ⟨held, finds, after⟩
    · intro other member differ
      simp only [List.mem_filter, Bool.and_eq_true, decide_eq_true_eq] at member
      obtain ⟨there, other_finds, other_after⟩ := member
      rcases last other there other_finds other_after with same | ⟨newest, some_newest, below⟩
      · rw [chosen] at same
        exact absurd (Option.some.inj same).symm differ
      · rw [chosen] at some_newest
        rw [Option.some.inj some_newest]
        exact below

/-! ### What the copied files are -/

section Chain

variable (chain : CopiedChain listing none full diff logs)

include chain

theorem mem_copiedLogs {log : BackupFile} : log ∈ logs ↔ log ∈ listing ∧ log.kind = some .log ∧
    backupSortTimestamp (diff.getD full) ≤ backupSortTimestamp log := by
  rw [chain.logs_eq, logFiles]
  simp

theorem eq_diff_of_copied (member : file ∈ full :: diff.toList ++ logs) (is_diff : file.kind = some .diff) :
    diff = some file := by
  rcases mem_files.mp member with rfl | chosen | log
  · have kinds := is_diff.symm.trans chain.full_spec.2.1
    cases kinds
  · exact chosen
  · have kinds := is_diff.symm.trans (chain.mem_logs log).2.1
    cases kinds

theorem mem_taken_of_isLog {taken : List BackupFile} (member : file ∈ full :: diff.toList ++ taken)
    (is_log : file.kind = some .log) : file ∈ taken := by
  rcases mem_files.mp member with rfl | chosen | log
  · have kinds := is_log.symm.trans chain.full_spec.2.1
    cases kinds
  · have kinds := is_log.symm.trans (chain.diff_spec chosen).2.1
    cases kinds
  · exact log

/-- Where the clocks agree the files taken are the copied ones. -/
theorem takes_of_agree (agree : ClocksAgree lower entry cutoff listing full diff)
    (holds : ∀ file ∈ full :: diff.toList ++ logs, file ∈ staged) (subset : ∀ file ∈ staged, file ∈ listing) :
    file ∈ latestFiles lower entry cutoff staged ↔ file ∈ full :: diff.toList ++ logs := by
  have newest : getLatestFullBackup lower entry cutoff staged = some full :=
    full_found (holds full List.mem_cons_self) agree.full_taken
      fun other there => agree.full_last other (subset other there)
  have latest : findRestoreDiffBackup lower entry full staged = diff := by
    refine diff_found ?_ fun other there => agree.diff_last other (subset other there)
    intro other chosen
    exact ⟨holds other (mem_files.mpr (.inr (.inl chosen))), agree.diff_after other chosen⟩
  have after : file ∈ findRestoreLogBackups lower entry (diff.getD full) staged ↔ file ∈ logs := by
    rw [mem_logsFound]
    constructor
    · rintro ⟨held, late⟩
      exact (mem_copiedLogs chain).mpr ⟨subset file held, (agree.logs_alike file (subset file held)).mp late⟩
    · intro copied
      obtain ⟨listed, late⟩ := (mem_copiedLogs chain).mp copied
      exact ⟨holds file (List.mem_append_right _ copied), (agree.logs_alike file listed).mpr late⟩
  unfold latestFiles
  rw [newest]
  dsimp only
  rw [latest, mem_files, mem_files, after]

section Needed

variable (takes : ∀ staged, (∀ file ∈ full :: diff.toList ++ logs, file ∈ staged) →
  (∀ file ∈ staged, file ∈ listing) →
    ∀ file, file ∈ latestFiles lower entry cutoff staged ↔ file ∈ full :: diff.toList ++ logs)

include takes

theorem full_found_of_takes (holds : ∀ file ∈ full :: diff.toList ++ logs, file ∈ staged)
    (subset : ∀ file ∈ staged, file ∈ listing) : getLatestFullBackup lower entry cutoff staged = some full := by
  have taken := (takes staged holds subset full).mpr List.mem_cons_self
  have is_full := chain.full_spec.2.1
  unfold latestFiles at taken
  cases found : getLatestFullBackup lower entry cutoff staged with
  | none =>
    rw [found] at taken
    cases taken
  | some newest =>
    rw [found] at taken
    rcases mem_files.mp taken with same | chosen | log
    · rw [same]
    · have kinds := is_full.symm.trans (Entry.kind_of_findsDiff (of_diffFound chosen).2.1)
      cases kinds
    · have kinds := is_full.symm.trans (Entry.kind_of_findsLog (mem_logsFound.mp log).2.1)
      cases kinds

theorem files_of_takes (file : BackupFile) (holds : ∀ file ∈ full :: diff.toList ++ logs, file ∈ staged)
    (subset : ∀ file ∈ staged, file ∈ listing) :
    file ∈ full :: (findRestoreDiffBackup lower entry full staged).toList ++
        findRestoreLogBackups lower entry ((findRestoreDiffBackup lower entry full staged).getD full) staged ↔
      file ∈ full :: diff.toList ++ logs := by
  have taken := takes staged holds subset file
  unfold latestFiles at taken
  rw [full_found_of_takes chain takes holds subset] at taken
  exact taken

theorem diff_found_of_takes (holds : ∀ file ∈ full :: diff.toList ++ logs, file ∈ staged)
    (subset : ∀ file ∈ staged, file ∈ listing) : findRestoreDiffBackup lower entry full staged = diff := by
  cases found : findRestoreDiffBackup lower entry full staged with
  | some newest =>
    have taken := mem_files.mpr (.inr (.inl found) : newest = full ∨ _ ∨ newest ∈ findRestoreLogBackups lower entry
      ((findRestoreDiffBackup lower entry full staged).getD full) staged)
    have copied := (files_of_takes chain takes newest holds subset).mp taken
    exact (eq_diff_of_copied chain copied (Entry.kind_of_findsDiff (of_diffFound found).2.1)).symm
  | none =>
    cases chosen : diff with
    | none => rfl
    | some newest =>
      have copied : newest ∈ full :: diff.toList ++ logs := mem_files.mpr (.inr (.inl chosen))
      have is_diff := (chain.diff_spec chosen).2.1
      rcases mem_files.mp ((files_of_takes chain takes newest holds subset).mpr copied) with rfl | taken | log
      · have kinds := is_diff.symm.trans chain.full_spec.2.1
        cases kinds
      · rw [found] at taken
        cases taken
      · have kinds := is_diff.symm.trans (Entry.kind_of_findsLog (mem_logsFound.mp log).2.1)
        cases kinds

theorem full_last_of_takes {other : BackupFile} (there : other ∈ listing) (finds : entry.findsFull lower other = true)
    (differ : other ≠ full) : latestKey lower entry other < latestKey lower entry full := by
  by_contra not_below
  have above := not_lt.mp not_below
  have within : ∀ file ∈ other :: (full :: diff.toList ++ logs), file ∈ listing := by
    intro file member
    rcases List.mem_cons.mp member with rfl | copied
    · exact there
    · exact chain.files_subset copied
  have found := full_found_of_takes chain takes (fun file member => List.mem_cons_of_mem _ member) within
  have taken : takesFull lower entry cutoff other = true := by
    refine takesFull_of_later (of_fullFound found).2 finds ?_
    unfold latestKey at above
    cases target : entry.target with
    | windows =>
      rw [target] at above
      exact (Prod.Lex.toLex_le_toLex'.mp above).1
    | linux =>
      rw [target] at above
      exact (Prod.Lex.toLex_le_toLex'.mp above).1
  have first : other ∈ (other :: (full :: diff.toList ++ logs)).filter (takesFull lower entry cutoff) :=
    List.mem_filter.mpr ⟨List.mem_cons_self, taken⟩
  have leftmost := (List.mem_argmax_iff.mp (Option.mem_def.mpr found)).2.2 other first above
  rw [List.filter_cons_of_pos taken, List.idxOf_cons_self, List.idxOf_cons_ne _ differ] at leftmost
  exact absurd leftmost (Nat.not_succ_le_zero _)

theorem diff_last_of_takes {other : BackupFile} (there : other ∈ listing) (finds : entry.findsDiff lower other = true)
    (after : statMtime entry.target full ≤ other.mtime) :
    diff = some other ∨ ∃ file, diff = some file ∧ writtenKey lower other < writtenKey lower file := by
  have within : ∀ file ∈ (full :: diff.toList ++ logs) ++ [other], file ∈ listing := by
    intro file member
    rcases List.mem_append.mp member with copied | last
    · exact chain.files_subset copied
    · rw [List.mem_singleton.mp last]
      exact there
  have found := diff_found_of_takes chain takes (fun file member => List.mem_append_left _ member) within
  by_contra not_above
  have below : ∀ file ∈ (full :: diff.toList ++ logs).filter
      (fun file => entry.findsDiff lower file && statMtime entry.target full ≤ file.mtime),
      writtenKey lower file ≤ writtenKey lower other := by
    intro file member
    simp only [List.mem_filter, Bool.and_eq_true, decide_eq_true_eq] at member
    by_contra above
    have is_diff := Entry.kind_of_findsDiff member.2.1
    exact not_above (.inr ⟨file, eq_diff_of_copied chain member.1 is_diff, not_le.mp above⟩)
  have alone : [other].filter (fun file => entry.findsDiff lower file && statMtime entry.target full ≤ file.mtime) =
      [other] := by
    simp [finds, after]
  unfold findRestoreDiffBackup at found
  rw [List.filter_append, alone] at found
  have last := sortedBy_concat below
  unfold writtenKey at last
  rw [last, List.getLast?_concat] at found
  exact not_above (.inl found.symm)

theorem logs_alike_of_takes {log : BackupFile} (there : log ∈ listing) :
    entry.findsLog lower log = true ∧ statMtime entry.target (diff.getD full) ≤ log.mtime ↔
      log.kind = some .log ∧ backupSortTimestamp (diff.getD full) ≤ backupSortTimestamp log := by
  have wider : ∀ file ∈ (full :: diff.toList ++ logs) ++ [log], file ∈ listing := by
    intro file member
    rcases List.mem_append.mp member with copied | last
    · exact chain.files_subset copied
    · rw [List.mem_singleton.mp last]
      exact there
  have still : ∀ file ∈ full :: diff.toList ++ logs, file ∈ (full :: diff.toList ++ logs) ++ [log] :=
    fun file member => List.mem_append_left _ member
  have same : log ∈ full :: diff.toList ++ findRestoreLogBackups lower entry (diff.getD full)
      ((full :: diff.toList ++ logs) ++ [log]) ↔ log ∈ full :: diff.toList ++ logs := by
    have files := files_of_takes chain takes log still wider
    rw [diff_found_of_takes chain takes still wider] at files
    exact files
  constructor
  · rintro ⟨finds, late⟩
    have found : log ∈ findRestoreLogBackups lower entry (diff.getD full) ((full :: diff.toList ++ logs) ++ [log]) :=
      mem_logsFound.mpr ⟨List.mem_append_right _ (List.mem_singleton_self log), finds, late⟩
    have copied := same.mp (List.mem_append_right _ found)
    exact ((mem_copiedLogs chain).mp (mem_taken_of_isLog chain copied (Entry.kind_of_findsLog finds))).2
  · rintro ⟨is_log, late⟩
    have copied := (mem_copiedLogs chain).mpr ⟨there, is_log, late⟩
    have found := same.mpr (List.mem_append_right _ copied)
    exact (mem_logsFound.mp (mem_taken_of_isLog chain found is_log)).2

theorem agree_of_takes : ClocksAgree lower entry cutoff listing full diff := by
  have held : ∀ file ∈ full :: diff.toList ++ logs, file ∈ full :: diff.toList ++ logs := fun _ member => member
  have within : ∀ file ∈ full :: diff.toList ++ logs, file ∈ listing := fun _ member => chain.files_subset member
  refine ⟨?_, ?_, ?_, ?_, ?_⟩
  · exact (of_fullFound (full_found_of_takes chain takes held within)).2
  · exact fun other there finds differ => full_last_of_takes chain takes there finds differ
  · intro file chosen
    exact (of_diffFound ((diff_found_of_takes chain takes held within).trans chosen)).2
  · exact fun other there finds after => diff_last_of_takes chain takes there finds after
  · exact fun log there => logs_alike_of_takes chain takes there

end Needed

end Chain

end Found

def longFull : BackupFile := ⟨"/import/Shop", "FULL", "shop.bak", some 100, 300, by simp⟩

def overlappedLog : BackupFile := ⟨"/import/Shop", "LOG", "shop_1.trn", some 150, 151, by simp⟩

def laterLog : BackupFile := ⟨"/import/Shop", "LOG", "shop_2.trn", some 400, 401, by simp⟩

end DbaBrain.BackupRestore.LatestChain
