import DbaBrain.Lib.BackupFilesRetention
import DbaBrain.Lib.SqlServerBackupChain

/-!
# A recovery window keeps every restorable point

The planner drops a file only when a FULL of its database, at or before the
cutoff, is newer.  A restore to a moment the cutoff does not follow starts from
a FULL at least as new, so it never reads a dropped file.
-/

namespace DbaBrain.Lib.RetentionKeepsChain

open DbaBrain.Foundation DbaBrain.Foundation.Calendar
open BackupFilesRetention SqlServerBackupChain

/-- A listed file as the chain rule sees it; `unknown` times the files that state no finish. -/
def candidateOf (unknown : BackupFile → ℚ) (row : BackupFile) : Candidate BackupFile ℚ :=
  ⟨row, row.database, some row.kind, (row.finishedAt.map Moment.epoch).getD (unknown row)⟩

/-- Every moment whose stamp the cutoff does not precede is at or before the target. -/
def CutoffReached (cutoff : String) (target : ℚ) : Prop :=
  ∀ moment : Moment, stampText moment ≤ cutoff → moment.epoch ≤ target

theorem cutoffReached_stampText {moment : Moment} {target : ℚ} :
    CutoffReached (stampText moment) target ↔ moment.epoch ≤ target := by
  constructor
  · intro reached
    exact reached moment (le_refl _)
  · intro reached earlier before
    exact ((Moment.epoch_le_iff _ _).mpr (stampText_strictMono.le_iff_le.mp before)).trans reached

section Dropped

variable {files : List BackupFile} {cutoff days : String} {unknown : BackupFile → ℚ} {target : ℚ}
  {lower : String → String}

/-- A dropped file is older than the FULL its database's restore starts from. -/
theorem dropped_lt_full {row : BackupFile} {full : Candidate BackupFile ℚ} (reached : CutoffReached cutoff target)
    (chosen : (fullsOf (some target) (filesOf lower (files.map (candidateOf unknown)) (lower row.database))).argmax
      Candidate.timestamp = some full)
    (dropped : keeps files cutoff days row = false) :
    (candidateOf unknown row).timestamp < full.timestamp := by
  obtain ⟨anchor, member, kind, anchorStated, old, sameDatabase, stated, older⟩ := older_than_full dropped
  obtain ⟨anchored, anchorMoment⟩ := finishedAt_of_finished anchorStated
  obtain ⟨finished, moment⟩ := finishedAt_of_finished stated
  rw [finished_of_some anchorMoment] at old older
  rw [finished_of_some moment] at older
  have anchorTime : (candidateOf unknown anchor).timestamp = anchored.epoch := by
    simp [candidateOf, anchorMoment]
  have rowTime : (candidateOf unknown row).timestamp = finished.epoch := by
    simp [candidateOf, moment]
  have before : finished.epoch < anchored.epoch := by
    rw [← not_le, Moment.epoch_le_iff, not_le]
    exact stampText_strictMono.lt_iff_lt.mp older
  have inGroup : candidateOf unknown anchor ∈
      filesOf lower (files.map (candidateOf unknown)) (lower row.database) := by
    simp only [filesOf, List.mem_filter, List.mem_map, decide_eq_true_eq]
    exact ⟨⟨anchor, member, rfl⟩, congrArg lower sameDatabase⟩
  have admitted : atOrBefore (some target) (candidateOf unknown anchor).timestamp = true := by
    rw [atOrBefore, anchorTime, decide_eq_true_eq]
    exact reached anchored old
  have newest := le_chosen_full chosen inGroup (by simp [candidateOf, kind]) admitted
  rw [rowTime]
  rw [anchorTime] at newest
  exact before.trans_le newest

theorem filesOf_filter (keep : BackupFile → Bool) (key : String) :
    filesOf lower ((files.filter keep).map (candidateOf unknown)) key =
      (filesOf lower (files.map (candidateOf unknown)) key).filter fun c => keep c.item := by
  simp only [filesOf, List.filter_map, List.filter_filter]
  congr 1
  apply List.filter_congr
  intro row _
  simp [candidateOf, Bool.and_comm]

/-- One database's restore reads the same files among the kept ones. -/
theorem chosenFiles_kept (reached : CutoffReached cutoff target) (key : String) :
    chosenFiles (some target)
        (filesOf lower ((files.filter (keeps files cutoff days)).map (candidateOf unknown)) key) =
      chosenFiles (some target) (filesOf lower (files.map (candidateOf unknown)) key) := by
  rw [filesOf_filter, chosenFiles, chainOf_filter]
  · rfl
  · intro full chosen c member after
    by_contra dropped
    simp only [filesOf, List.mem_filter, List.mem_map, decide_eq_true_eq] at member
    obtain ⟨⟨row, _, rfl⟩, rfl⟩ := member
    have older := dropped_lt_full reached chosen (Bool.eq_false_iff.mpr dropped)
    exact absurd after (not_le_of_gt older)

/-- The plan's order gives the same files a database when no two names share a lower-cased form. -/
theorem filesOf_regrouped
    (apart : ∀ row ∈ files, ∀ other ∈ files, lower row.database = lower other.database →
      row.database = other.database) (key : String) :
    filesOf lower (((regrouped files).filter (keeps files cutoff days)).map (candidateOf unknown)) key =
      filesOf lower ((files.filter (keeps files cutoff days)).map (candidateOf unknown)) key := by
  simp only [filesOf, List.filter_map, List.filter_filter]
  congr 1
  by_cases known : ∃ row ∈ files, lower row.database = key
  · obtain ⟨row, member, rfl⟩ := known
    have byName {listing : List BackupFile} (inFiles : ∀ other ∈ listing, other ∈ files) :
        listing.filter (fun other => ((fun c => decide (lower c.database = lower row.database)) ∘
            candidateOf unknown) other && keeps files cutoff days other) =
          (listing.filter fun other => other.database = row.database).filter (keeps files cutoff days) := by
      rw [List.filter_filter]
      apply List.filter_congr
      intro other present
      have sameName : lower other.database = lower row.database ↔ other.database = row.database :=
        ⟨apart other (inFiles other present) row member, congrArg lower⟩
      simp [candidateOf, sameName, Bool.and_comm]
    rw [byName fun other => mem_regrouped.mp, byName fun other => id, regrouped_filter]
  · have nothing {listing : List BackupFile} (inFiles : ∀ other ∈ listing, other ∈ files) :
        listing.filter (fun other => ((fun c => decide (lower c.database = key)) ∘
            candidateOf unknown) other && keeps files cutoff days other) = [] := by
      rw [List.filter_eq_nil_iff]
      intro other present qualifies
      have name := (Bool.and_eq_true _ _).mp qualifies
      exact known ⟨other, inFiles other present, of_decide_eq_true name.1⟩
    rw [nothing fun other => mem_regrouped.mp, nothing fun other => id]

end Dropped

/--
A restore to any moment the plan's cutoff does not follow selects the same
files from the kept ones as from all of them: in the order of the listing
always, in the order of the plan when no two database names of the listing
share a lower-cased form.
-/
theorem retention_keeps_restorable_points (lower : String → String) {files : List BackupFile}
    {retentionDays : Int} {mode : String} {now : Moment} {retentionSeconds : Option Int} {windows : Windows}
    {plan : Plan} (planned : planRetention files retentionDays mode now retentionSeconds windows = .ok plan)
    (rule : plan.mode = .recoveryWindow) (unknown : BackupFile → ℚ) {target : ℚ}
    (reached : CutoffReached plan.cutoff target) :
    (restoreChain lower ((files.filter fun row => row ∈ plan.keptFiles).map (candidateOf unknown))
        (some target)).selected =
      (restoreChain lower (files.map (candidateOf unknown)) (some target)).selected ∧
    ((∀ row ∈ files, ∀ other ∈ files, lower row.database = lower other.database →
        row.database = other.database) →
      (restoreChain lower (plan.keptFiles.map (candidateOf unknown)) (some target)).selected =
        (restoreChain lower (files.map (candidateOf unknown)) (some target)).selected) := by
  have kept := keptFiles_of_recoveryWindow planned rule
  have inListing : files.filter (fun row => row ∈ plan.keptFiles) =
      files.filter (keeps files plan.cutoff plan.window) := by
    apply List.filter_congr
    intro row member
    simp [kept, List.mem_filter, mem_regrouped, member]
  constructor
  · rw [inListing]
    apply selected_congr
    · intro c member
      obtain ⟨row, inKept, rfl⟩ := List.mem_map.mp member
      exact List.mem_map.mpr ⟨row, List.mem_of_mem_filter inKept, rfl⟩
    · exact chosenFiles_kept reached
  · intro apart
    rw [kept]
    apply selected_congr
    · intro c member
      obtain ⟨row, inKept, rfl⟩ := List.mem_map.mp member
      exact List.mem_map.mpr ⟨row, mem_regrouped.mp (List.mem_of_mem_filter inKept), rfl⟩
    · intro key
      rw [filesOf_regrouped apart, chosenFiles_kept reached]

/-! ## Two databases whose names differ only in case -/

def twinLog : BackupFile :=
  ⟨"/backup/sales/LOG/sales_LOG.trn", .log, some "sales", some 1, some 63913622000, none⟩

def twinUpper : BackupFile :=
  ⟨"/backup/SALES/FULL/SALES_FULL.bak", .full, some "SALES", some 1, some 63913622399, none⟩

def twinLower : BackupFile :=
  ⟨"/backup/sales/FULL/sales_FULL.bak", .full, some "sales", some 1, some 63913622399, none⟩

/-- The two FULLs finished in the same second; a listing has the upper-case path first. -/
def twinListing : List BackupFile := [twinLog, twinUpper, twinLower]

theorem twin_planned : ∃ plan, planRetention twinListing 1 "recovery_window" 63914000000 none [] = .ok plan ∧
    plan.mode = .recoveryWindow ∧ plan.cutoff = stampText 63913913600 ∧ plan.window = "1-day" :=
  ⟨_, rfl, rfl, rfl, by decide +kernel⟩

theorem twin_reached : CutoffReached (stampText 63913913600) (Moment.epoch 63914000000) :=
  cutoffReached_stampText.mpr ((Moment.epoch_le_iff _ _).mpr (by decide))

theorem twin_kept :
    (regrouped twinListing).filter (keeps twinListing (stampText 63913913600) "1-day") = [twinLower, twinUpper] := by
  decide +kernel

theorem retention_keeps_restorable_points_twins :
    ∃ plan, planRetention twinListing 1 "recovery_window" 63914000000 none [] = .ok plan ∧
      (restoreChain Text.asciiLower ((twinListing.filter fun row => row ∈ plan.keptFiles).map
          (candidateOf fun _ => 0)) (some (Moment.epoch 63914000000))).selected =
        (restoreChain Text.asciiLower (twinListing.map (candidateOf fun _ => 0))
          (some (Moment.epoch 63914000000))).selected := by
  obtain ⟨plan, planned, rule, cutoff, -⟩ := twin_planned
  exact ⟨plan, planned, (retention_keeps_restorable_points Text.asciiLower planned rule (fun _ => 0)
    (cutoff ▸ twin_reached)).1⟩

/-- In the plan's own order the tie between the two FULLs is broken the other way. -/
theorem retention_reorders_twins :
    ∃ plan, planRetention twinListing 1 "recovery_window" 63914000000 none [] = .ok plan ∧
      plan.mode = .recoveryWindow ∧ CutoffReached plan.cutoff (Moment.epoch 63914000000) ∧
      (restoreChain Text.asciiLower (plan.keptFiles.map (candidateOf fun _ => 0))
          (some (Moment.epoch 63914000000))).selected = [twinLower] ∧
      (restoreChain Text.asciiLower (twinListing.map (candidateOf fun _ => 0))
          (some (Moment.epoch 63914000000))).selected = [twinUpper] := by
  obtain ⟨plan, planned, rule, cutoff, window⟩ := twin_planned
  have kept := keptFiles_of_recoveryWindow planned rule
  rw [cutoff, window, twin_kept] at kept
  refine ⟨plan, planned, rule, cutoff ▸ twin_reached, ?_, ?_⟩
  · rw [kept]
    decide +kernel
  · decide +kernel

end DbaBrain.Lib.RetentionKeepsChain
