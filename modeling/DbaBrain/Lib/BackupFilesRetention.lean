import DbaBrain.Foundation.Calendar
import DbaBrain.Foundation.Execution
import DbaBrain.Foundation.Selection
import DbaBrain.Foundation.Text
import DbaBrain.Lib.BackupKinds

/-!
# Which backup files a retention window no longer covers

The plan splits a listing into kept and obsolete files.  Under `age` a file
older than the cutoff is obsolete; under `recovery_window` each database keeps
everything from its anchor on, the newest FULL at or before the cutoff.  Under
both, each database's newest FULL and everything after it is kept.  Cutoffs
and stamps are compared as text, as the source compares them.
-/

namespace DbaBrain.Lib.BackupFilesRetention

open DbaBrain.Foundation.Calendar DbaBrain.Foundation.Selection DbaBrain.Foundation
open Execution (bind_eq_ok)

/-- One row of `list_backup_files`. The engine states the finish as a moment, or not at all. -/
structure BackupFile where
  path : String
  kind : BackupKind
  databaseName : Option String
  sizeBytes : Option Int
  finishedAt : Option Moment
  ageSeconds : Option Int
  deriving DecidableEq

inductive Mode where
  | age
  | recoveryWindow

inductive Verdict where
  | keep
  | obsolete
  deriving DecidableEq

structure Judged where
  row : BackupFile
  verdict : Verdict
  reason : String

inductive Failure where
  | retentionError (message : String)
  | overflow

/-- The windows a retention names by level; `none` keeps the level. -/
abbrev Windows := List (BackupKind × Option Int)

abbrev LevelCutoffs := List (BackupKind × Option String)

structure Plan where
  mode : Mode
  retentionDays : Int
  retentionSeconds : Int
  window : String
  cutoff : String
  levelCutoffs : LevelCutoffs
  obsolete : List Judged
  keep : List Judged
  obsoletePaths : List String
  reclaimableBytes : Int
  sizesKnown : Bool

/-- `_normalise`: the text two stamps are compared as. -/
def normalise (value : Option String) : String :=
  let text := Text.strip (value.getD "")
  if text = "" then "" else Text.take 19 (Text.replaceChar 'T' ' ' text)

/-- `_normalise(row["finished_at"])`. -/
def BackupFile.finished (row : BackupFile) : String := normalise (row.finishedAt.map stampText)

/-- `str(row["database_name"] or "")`. -/
def BackupFile.database (row : BackupFile) : String := row.databaseName.getD ""

def kindWord : BackupKind → String
  | .full => "full"
  | .diff => "diff"
  | .log => "log"

def later (moment : Moment) (span : Int) : Except Failure Moment :=
  match moment.shift span with
  | none => .error .overflow
  | some moment => .ok moment

/-- The time it was on the stamping clock when the listing was taken, where a row tells. -/
def sourceNow : Option Moment → List BackupFile → Except Failure (Option Moment)
  | thereNow, [] => .ok thereNow
  | thereNow, row :: rest =>
      match row.ageSeconds, row.finishedAt with
      | some age, some finished => do
          let moment ← later finished age
          sourceNow (some (thereNow.elim moment fun earlier => max earlier moment)) rest
      | _, _ => sourceNow thereNow rest

/-- `_source_cutoff(files, span) or _stamp(moment - span)`. -/
def cutoffOf (files : List BackupFile) (moment : Moment) (span : Int) : Except Failure String := do
  let thereNow ← sourceNow none files
  let cutoff ← later (thereNow.getD moment) (-span)
  return stampText cutoff

def levelCutoffsOf (files : List BackupFile) (moment : Moment) : Windows → Except Failure LevelCutoffs
  | [] => .ok []
  | (level, none) :: rest => do
      let others ← levelCutoffsOf files moment rest
      return (level, none) :: others
  | (level, some seconds) :: rest => do
      let cutoff ← cutoffOf files moment seconds
      let others ← levelCutoffsOf files moment rest
      return (level, some cutoff) :: others

def judgeByAge (cutoff days : String) (levelCutoffs : LevelCutoffs) (row : BackupFile) : Judged :=
  let finished := row.finished
  let level := kindWord row.kind
  match levelCutoffs.lookup row.kind with
  | some none => ⟨row, .keep, "its level (" ++ level ++ ") is kept: keep"⟩
  | named =>
      let own := (named.getD none).getD cutoff
      let label := if named.isSome then level ++ " window's" else days
      if finished = "" then ⟨row, .keep, "no finished_at: age unknown, so not judged"⟩
      else if finished < own then
        ⟨row, .obsolete, "finished " ++ finished ++ ", older than the " ++ label ++ " cutoff (" ++ own ++ ")"⟩
      else ⟨row, .keep, "finished " ++ finished ++ ", inside the " ++ label ++ " window"⟩

def byAge (files : List BackupFile) (cutoff days : String) (levelCutoffs : LevelCutoffs) : List Judged :=
  files.map (judgeByAge cutoff days levelCutoffs)

def fullStamps (group : List BackupFile) : List String :=
  sortedBy id ((group.filter fun row => row.kind = .full && row.finished ≠ "").map BackupFile.finished)

/-- The stamp every retained file must reach back to, or none with the reason nothing may be deleted. -/
def anchorOf (group : List BackupFile) (cutoff : String) : Option String × String :=
  match fullStamps group with
  | [] =>
      (none, "no full backup in this set: the differentials and logs here have nothing to " ++
        "restore onto, so none of them can be spared")
  | oldest :: others =>
      match ((oldest :: others).filter fun stamp => stamp ≤ cutoff).getLast? with
      | none =>
          (none, "the oldest full (" ++ oldest ++ ") is newer than the cutoff (" ++ cutoff ++ "): the chain " ++
            "does not reach back to the far edge of the window yet")
      | some anchor => (some anchor, "")

def judgeByWindow (days : String) : Option String × String → BackupFile → Judged
  | (none, why), row =>
      ⟨row, .keep, if row.finished = "" then "no finished_at: age unknown, so not judged" else why⟩
  | (some anchor, _), row =>
      if row.finished = "" then ⟨row, .keep, "no finished_at: age unknown, so not judged"⟩
      else if anchor ≤ row.finished then
        ⟨row, .keep, "at or after the anchor full (" ++ anchor ++ "); needed to restore into the " ++
          days ++ " window"⟩
      else
        ⟨row, .obsolete, "older than the anchor full (" ++ anchor ++ "); nothing in the " ++ days ++
          " window restores from it"⟩

/-- Judged a database at a time: the rows come back grouped, not in the order of the listing. -/
def byRecoveryWindow (files : List BackupFile) (cutoff days : String) : List Judged :=
  (groupsBy BackupFile.database files).flatMap fun (_, group) =>
    group.map (judgeByWindow days (anchorOf group cutoff))

/-- The stamp of a database's newest FULL among the rows, or the empty text. -/
def newestFull (rows : List Judged) (database : String) : String :=
  rows.foldl (fun newest judged =>
    if judged.row.kind = .full ∧ judged.row.finished ≠ "" ∧ judged.row.database = database then
      max newest judged.row.finished
    else newest) ""

def spare (rows : List Judged) (judged : Judged) : Judged :=
  let anchor := newestFull rows judged.row.database
  let finished := judged.row.finished
  if judged.verdict = .obsolete ∧ anchor ≠ "" ∧ anchor ≤ finished then
    ⟨judged.row, .keep,
      if judged.row.kind = .full ∧ finished = anchor then
        "the newest full of this database - kept regardless of age"
      else "after the newest full (" ++ anchor ++ ") - its chain is kept regardless of age"⟩
  else judged

def keepNewestChain (rows : List Judged) : List Judged := rows.map (spare rows)

def parseMode (mode : String) : Except Failure Mode :=
  let rule := Text.asciiLower (Text.strip (if mode = "" then "age" else mode))
  if rule = "age" then .ok .age
  else if rule = "recovery_window" then .ok .recoveryWindow
  else .error (.retentionError ("mode must be one of age, recovery_window; got '" ++ mode ++ "'."))

def windowOf (retentionDays seconds : Int) : Except Failure (Int × String) :=
  if seconds ≤ 0 then
    if retentionDays < 1 then .error (.retentionError "retention_days must be at least 1.")
    else .ok (retentionDays * 86400, toString retentionDays ++ "-day")
  else if seconds % 86400 = 0 then .ok (seconds, toString (seconds / 86400) ++ "-day")
  else .ok (seconds, toString seconds ++ "-second")

def listedSize (judged : Judged) : Int := judged.row.sizeBytes.getD 0

def planRetention (files : List BackupFile) (retentionDays : Int) (mode : String) (now : Moment)
    (retentionSeconds : Option Int) (windows : Windows) : Except Failure Plan := do
  let (span, window) ← windowOf retentionDays (retentionSeconds.getD 0)
  let rule ← parseMode mode
  let uniform ← cutoffOf files now span
  let levelCutoffs ← levelCutoffsOf files now windows
  -- A chain is anchored on its FULL: the FULL's window is the window of a recovery window.
  let cutoff := match rule, levelCutoffs.lookup .full with
    | .recoveryWindow, some full => full.getD "0000-00-00 00:00:00"
    | _, _ => uniform
  let rows := keepNewestChain <| match rule with
    | .age => byAge files cutoff window levelCutoffs
    | .recoveryWindow => byRecoveryWindow files cutoff window
  let obsolete := rows.filter fun judged => judged.verdict = .obsolete
  return {
    mode := rule
    retentionDays := span / 86400
    retentionSeconds := span
    window := window
    cutoff := cutoff
    levelCutoffs := levelCutoffs
    obsolete := obsolete
    keep := rows.filter fun judged => judged.verdict = .keep
    obsoletePaths := obsolete.map fun judged => judged.row.path
    reclaimableBytes := (obsolete.map listedSize).sum
    sizesKnown := obsolete.all fun judged => judged.row.sizeBytes.isSome }

def Plan.keptFiles (plan : Plan) : List BackupFile := plan.keep.map Judged.row

/-! ## Stamps -/

theorem normalise_stampText (moment : Moment) : normalise (some (stampText moment)) = stampText moment := by
  have length := stampText_length moment
  have chars : (stampText moment).toList = render (stampShape ' ' []) moment.fields := by simp [stampText]
  have edge {c : Char} (isDigit : ∃ n, c = digit n) : Text.isSpace c = false ∧ c ≠ 'T' := by
    obtain ⟨n, rfl⟩ := isDigit
    have bound : n % 10 < 10 := Nat.mod_lt _ (by decide)
    unfold digit
    generalize n % 10 = m at bound
    interval_cases m <;> decide
  have stripped : Text.strip (stampText moment) = stampText moment := by
    apply Text.strip_eq_self
    · intro c head
      rw [chars] at head
      exact (edge ⟨_, (Option.some.inj head).symm⟩).1
    · intro c last
      rw [chars] at last
      exact (edge ⟨_, (Option.some.inj last).symm⟩).1
  have noT : 'T' ∉ (stampText moment).toList := by
    intro member
    rw [chars] at member
    obtain isDigit | ⟨field, present, inAfter⟩ := mem_render member
    · exact (edge isDigit).2 rfl
    · fin_cases present <;> simp at inAfter
  have nonempty : stampText moment ≠ "" := by
    intro empty
    rw [empty] at length
    cases length
  simp [normalise, stripped, nonempty, Text.replaceChar_eq_self noT, Text.take_eq_self length.le]

variable {row : BackupFile} {files : List BackupFile}

theorem finished_of_some {moment : Moment} (stated : row.finishedAt = some moment) :
    row.finished = stampText moment := by
  rw [BackupFile.finished, stated]
  exact normalise_stampText moment

theorem finished_of_none (unstated : row.finishedAt = none) : row.finished = "" := by
  rw [BackupFile.finished, unstated]
  decide

theorem finishedAt_of_finished (stated : row.finished ≠ "") : ∃ moment, row.finishedAt = some moment := by
  cases known : row.finishedAt with
  | none => exact absurd (finished_of_none known) stated
  | some moment => exact ⟨moment, rfl⟩

/-! ## The recovery window as a filter -/

variable {cutoff days : String}

theorem anchorOf_some {group : List BackupFile} {anchor : String} (anchored : (anchorOf group cutoff).1 = some anchor) :
    ∃ full ∈ group, full.kind = .full ∧ full.finished ≠ "" ∧ full.finished = anchor ∧ anchor ≤ cutoff := by
  unfold anchorOf at anchored
  split at anchored
  · cases anchored
  · rename_i oldest others stamps
    split at anchored
    · cases anchored
    · rename_i newest last
      have same : newest = anchor := Option.some.inj anchored
      have member := List.mem_of_getLast? last
      simp only [List.mem_filter, decide_eq_true_eq] at member
      rw [← stamps, fullStamps, mem_sortedBy, List.mem_map] at member
      obtain ⟨⟨full, isFull, stamp⟩, old⟩ := member
      simp only [List.mem_filter, Bool.and_eq_true, decide_eq_true_eq] at isFull
      exact ⟨full, isFull.1, isFull.2.1, isFull.2.2, stamp.trans same, same ▸ old⟩

theorem judgeByWindow_row (days : String) (anchor : Option String × String) (row : BackupFile) :
    (judgeByWindow days anchor row).row = row := by
  obtain ⟨anchor, why⟩ := anchor
  cases anchor with
  | none => rfl
  | some anchor =>
    simp only [judgeByWindow]
    split
    · rfl
    · split <;> rfl

theorem judgeByWindow_obsolete {anchor : Option String × String}
    (obsolete : (judgeByWindow days anchor row).verdict = .obsolete) :
    ∃ stamp, anchor.1 = some stamp ∧ row.finished ≠ "" ∧ row.finished < stamp := by
  obtain ⟨anchor, why⟩ := anchor
  cases anchor with
  | none => cases obsolete
  | some stamp =>
    simp only [judgeByWindow] at obsolete
    split at obsolete
    · cases obsolete
    · rename_i stated
      split at obsolete
      · cases obsolete
      · rename_i older
        exact ⟨stamp, rfl, stated, lt_of_not_ge older⟩

@[simp] theorem spare_row (rows : List Judged) (judged : Judged) : (spare rows judged).row = judged.row := by
  unfold spare
  dsimp only
  split <;> rfl

/-- The floor only turns obsolete rows into kept ones. -/
theorem spare_obsolete {rows : List Judged} {judged : Judged}
    (obsolete : (spare rows judged).verdict = .obsolete) : judged.verdict = .obsolete := by
  unfold spare at obsolete
  dsimp only at obsolete
  split at obsolete
  · cases obsolete
  · exact obsolete

def windowVerdict (files : List BackupFile) (cutoff days : String) (row : BackupFile) : Judged :=
  spare (byRecoveryWindow files cutoff days)
    (judgeByWindow days (anchorOf (files.filter fun other => other.database = row.database) cutoff) row)

def keeps (files : List BackupFile) (cutoff days : String) (row : BackupFile) : Bool :=
  (windowVerdict files cutoff days row).verdict = .keep

def regrouped (files : List BackupFile) : List BackupFile :=
  (groupsBy BackupFile.database files).flatMap Prod.snd

theorem byRecoveryWindow_eq (files : List BackupFile) (cutoff days : String) :
    keepNewestChain (byRecoveryWindow files cutoff days) =
      (regrouped files).map (windowVerdict files cutoff days) := by
  rw [keepNewestChain]
  conv_lhs => arg 2; rw [byRecoveryWindow]
  rw [regrouped, groupsBy_eq, List.map_flatMap, List.map_flatMap, List.flatMap_map, List.flatMap_map]
  apply List.flatMap_congr
  intro database _
  rw [List.map_map]
  apply List.map_congr_left
  intro row member
  simp only [List.mem_filter, decide_eq_true_eq] at member
  rw [windowVerdict, member.2]
  rfl

theorem older_than_full (dropped : keeps files cutoff days row = false) :
    ∃ full ∈ files, full.kind = .full ∧ full.finished ≠ "" ∧ full.finished ≤ cutoff ∧
      full.database = row.database ∧ row.finished ≠ "" ∧ row.finished < full.finished := by
  have obsolete : (windowVerdict files cutoff days row).verdict = .obsolete := by
    cases verdict : (windowVerdict files cutoff days row).verdict with
    | keep => simp [keeps, verdict] at dropped
    | obsolete => rfl
  obtain ⟨stamp, anchored, stated, older⟩ := judgeByWindow_obsolete (spare_obsolete obsolete)
  obtain ⟨full, member, kind, known, same, old⟩ := anchorOf_some anchored
  simp only [List.mem_filter, decide_eq_true_eq] at member
  exact ⟨full, member.1, kind, known, same ▸ old, member.2, stated, same ▸ older⟩

/-! ## The plan -/

theorem keptFiles_of_recoveryWindow {retentionDays : Int} {mode : String} {now : Moment} {retentionSeconds : Option Int}
    {windows : Windows} {plan : Plan}
    (planned : planRetention files retentionDays mode now retentionSeconds windows = .ok plan)
    (rule : plan.mode = .recoveryWindow) :
    plan.keptFiles = (regrouped files).filter (keeps files plan.cutoff plan.window) := by
  obtain ⟨⟨span, window⟩, -, planned⟩ := bind_eq_ok planned
  obtain ⟨parsed, -, planned⟩ := bind_eq_ok planned
  obtain ⟨uniform, -, planned⟩ := bind_eq_ok planned
  obtain ⟨levelCutoffs, -, planned⟩ := bind_eq_ok planned
  cases planned
  cases rule
  simp only [Plan.keptFiles, byRecoveryWindow_eq, List.filter_map, List.map_map]
  conv_rhs => rw [← List.map_id (List.filter _ _)]
  apply List.map_congr_left
  intro row _
  simp [windowVerdict, judgeByWindow_row]

theorem mem_regrouped : row ∈ regrouped files ↔ row ∈ files := by
  simp only [regrouped, groupsBy_eq, List.mem_flatMap, List.mem_map, mem_firstSeen]
  constructor
  · rintro ⟨_, ⟨database, -, rfl⟩, member⟩
    exact List.mem_of_mem_filter member
  · intro member
    exact ⟨_, ⟨row.database, ⟨row, member, rfl⟩, rfl⟩, by simpa using member⟩

theorem regrouped_filter (files : List BackupFile) (database : String) :
    (regrouped files).filter (fun row => row.database = database) =
      files.filter fun row => row.database = database :=
  flatMap_groupsBy_filter BackupFile.database files database

end DbaBrain.Lib.BackupFilesRetention
