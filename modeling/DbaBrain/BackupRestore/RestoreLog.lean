import DbaBrain.Foundation.Text

/-!
# The log step of a restore

`run_restore_log` offers the selected logs to the target one after another.  A
log the target finds too recent or too early is passed over; a command whose
answer was lost is settled by the target's restore history.  A trace tells
what became of every log, and what was applied is joined end to end.
-/

namespace DbaBrain.BackupRestore.RestoreLog

open DbaBrain.Foundation

/-! ## The target -/

/-- A log backup: where the target sees it, and the positions it spans. -/
structure LogBackup where
  file : String
  firstLsn : Nat
  lastLsn : Nat
  ordered : firstLsn ≤ lastLsn

/-- What the resume check reads of the newest log in the restore history. -/
structure HistoryRow where
  backupSetId : Option Nat
  firstLsn : Option Nat
  lastLsn : Option Nat
  restoreFileCount : Option Nat
  lastFile : String

/-- A database being restored: its position, and the logs its history names, the newest first. -/
structure Database where
  position : Nat
  history : List HistoryRow

/-- The row the target keeps of a log it applied. -/
def LogBackup.row (setId : Nat) (log : LogBackup) : HistoryRow where
  backupSetId := some setId
  firstLsn := some log.firstLsn
  lastLsn := some log.lastLsn
  restoreFileCount := some 2
  lastFile := log.file

/-- Where a log ends for a database: at its last position, or at the moment to stop at if that comes first. -/
def LogBackup.endsAt (log : LogBackup) (position : Nat) (stopat : Option Nat) : Nat :=
  max position (match stopat with
    | none => log.lastLsn
    | some moment => min moment log.lastLsn)

def Database.apply (db : Database) (log : LogBackup) (stopat : Option Nat) : Database where
  position := log.endsAt db.position stopat
  history := log.row db.history.length :: db.history

def tooRecent (log : LogBackup) (position : Nat) : String :=
  "Msg 4305, Level 16, State 1, Server SQL1, Line 1\nThe log in this backup set begins at LSN " ++
    toString log.firstLsn ++ ", which is too recent to apply to the database. An earlier log backup that includes LSN " ++
      toString position ++ " can be restored."

def tooEarly (log : LogBackup) (position : Nat) : String :=
  "Msg 4326, Level 16, State 1, Server SQL1, Line 1\nThe log in this backup set terminates at LSN " ++
    toString log.lastLsn ++ ", which is too early to apply to the database. A more recent log backup that includes LSN " ++
      toString position ++ " can be restored."

/-- `RESTORE LOG` on the target. -/
def restoreLog (db : Database) (log : LogBackup) (stopat : Option Nat) : Except String Database :=
  if db.position < log.firstLsn then .error (tooRecent log db.position)
  else if log.lastLsn < db.position then .error (tooEarly log db.position)
  else .ok (db.apply log stopat)

/-! ## The step -/

def isSqlserverMsg4305 (text : String) : Bool :=
  Text.contains "msg 4305" (Text.asciiLower text) && Text.contains "too recent to apply" (Text.asciiLower text)

def isTooEarly (text : String) : Bool := Text.contains "too early to apply" (Text.asciiLower text)

/-- A failure that is neither of the two answers a log is passed over for. -/
structure OtherFailure where
  text : String
  not_4305 : isSqlserverMsg4305 text = false
  not_early : isTooEarly text = false

/-- What becomes of a command: the target's answer arrives, it fails for another reason, or it is
lost after the target ran it or did not.  The resume check then reads whether a restore is still
active, or reads nothing. -/
inductive Link
  | answered
  | failed (failure : OtherFailure)
  | lost (text : String) (ran : Bool) (active : Option Bool)

inductive StepStatus
  | success
  | successResumed

structure StepResult where
  status : StepStatus
  file : String

inductive StepError
  | timeout (text : String)
  | raised (text : String)

def sqlcmdFailed (output : String) : String := "sqlcmd command failed with exit code 1.\nstdout:\n" ++ output

/-- The target after a command whose answer is not read. -/
def ranUnseen (db : Database) (log : LogBackup) (stopat : Option Nat) : Database :=
  match restoreLog db log stopat with
  | .error _ => db
  | .ok after => after

def runRestoreStep (db : Database) (log : LogBackup) (stopat : Option Nat) :
    Link → Database × Except StepError StepResult
  | .answered =>
      match restoreLog db log stopat with
      | .error output => (db, .error (.raised (sqlcmdFailed output)))
      | .ok after => (after, .ok ⟨.success, log.file⟩)
  | .failed failure => (db, .error (.raised failure.text))
  | .lost text ran _ => (if ran then ranUnseen db log stopat else db, .error (.timeout text))

inductive ResumeDecision
  | confirmedLastLogRestored
  | unsafeToResume
  deriving DecidableEq

structure ResumeState where
  resumeDecision : ResumeDecision
  lastConfirmedLog : String

section Offered

/-! `lower` is Python's `str.lower`, on paths. -/

variable (lower : String → String)

def normalizeRestorePath (path : String) : String :=
  lower (String.ofList ((Text.replaceChar '\\' '/' path).toList.reverse.dropWhile (· = '/')).reverse)

/-- The row names the file, and is complete. -/
def exactIdentity (row : HistoryRow) (file : String) : Bool :=
  row.backupSetId.isSome && row.firstLsn.isSome && row.lastLsn.isSome && 0 < row.restoreFileCount.getD 0 &&
    (if row.lastFile = "" then "" else normalizeRestorePath lower row.lastFile) = normalizeRestorePath lower file

def noRow : HistoryRow := ⟨none, none, none, none, ""⟩

def inspectLogRestoreResumeState (db : Database) (currentBackup : String) : Option Bool → ResumeState
  | none => ⟨.unsafeToResume, "unknown"⟩
  | some active =>
      let newest := db.history.head?.getD noRow
      ⟨if exactIdentity lower newest currentBackup && !active then .confirmedLastLogRestored else .unsafeToResume,
        if newest.lastFile = "" then "null" else newest.lastFile⟩

/-! ## The loop -/

inductive Failure
  | refused (text : String)
  | operationFailed (text : String)
  | raised (text : String)

/-- The loop's two lists. -/
structure Tally where
  results : List StepResult
  skipped4305 : List String

def resumeUnsafe (database : String) (log : LogBackup) (lastConfirmedLog text : String) : String :=
  "reason=restore_timeout_resume_unsafe database=" ++ database ++ " backup=" ++ log.file ++
    " last_confirmed_log=" ++ lastConfirmedLog ++ ": " ++ text

/-- One log's turn in the loop. -/
def runLog (database : String) (stopat : Option Nat) (log : LogBackup) (link : Link) (db : Database) (tally : Tally) :
    Database × Except Failure Tally :=
  match runRestoreStep db log stopat link with
  | (after, .ok result) => (after, .ok { tally with results := tally.results ++ [result] })
  | (after, .error (.timeout text)) =>
      let active := match link with
        | .lost _ _ active => active
        | _ => none
      let resume := inspectLogRestoreResumeState lower after log.file active
      if resume.resumeDecision = .confirmedLastLogRestored then
        (after, .ok { tally with results := tally.results ++ [⟨.successResumed, log.file⟩] })
      else (after, .error (.refused (resumeUnsafe database log resume.lastConfirmedLog text)))
  | (after, .error (.raised text)) =>
      if isSqlserverMsg4305 text then (after, .ok { tally with skipped4305 := tally.skipped4305 ++ [log.file] })
      else if isTooEarly text then (after, .ok tally)
      else (after, .error (.raised text))

def runLogs (database : String) (total : Nat) (stopat : Option Nat) (links : Nat → Link) :
    Nat → List LogBackup → Database → Tally → Database × Except Failure Tally
  | _, [], db, tally => (db, .ok tally)
  | index, log :: rest, db, tally =>
      match runLog lower database (if index = total then stopat else none) log (links index) db tally with
      | (after, .error failure) => (after, .error failure)
      | (after, .ok tally) => runLogs database total stopat links (index + 1) rest after tally

inductive Status
  | success
  | skipped

structure Answer where
  status : Status
  selectedBackups : List String
  results : List StepResult

def noneApplied (database : String) (skipped4305 : List String) : String :=
  "missing required earlier LOG backup / LSN gap: no selected LOG backup could be applied database=" ++ database ++
    " skipped_msg_4305=" ++ if skipped4305 = [] then "none" else String.intercalate ", " skipped4305

/-- `stopat` is the position the database has at the moment to stop at. -/
def runRestoreLog (database : String) (stopat : Option Nat) (links : Nat → Link) (db : Database)
    (selected : List LogBackup) : Database × Except Failure Answer :=
  if selected = [] then (db, .ok ⟨.skipped, [], []⟩)
  else
    match runLogs lower database selected.length stopat links 1 selected db ⟨[], []⟩ with
    | (after, .error failure) => (after, .error failure)
    | (after, .ok tally) =>
        if tally.results = [] then (after, .error (.operationFailed (noneApplied database tally.skipped4305)))
        else (after, .ok ⟨.success, selected.map LogBackup.file, tally.results⟩)

end Offered

/-! ## What the answers are read as -/

/-- An answer in lower case, around its two numbers. -/
theorem asciiLower_answer (lead head middle tail : String) (first second : Nat) :
    Text.asciiLower (lead ++ (head ++ toString first ++ middle ++ toString second ++ tail)) =
      (Text.asciiLower lead ++ Text.asciiLower head) ++ toString first ++
        (Text.asciiLower middle ++ toString second ++ Text.asciiLower tail) := by
  simp only [Text.asciiLower_append, Text.asciiLower_toString, String.append_assoc]

theorem not_mem_of_digitless {n : Nat} {needle : List Char} (digitless : needle.all (fun c => !c.isDigit) = true)
    (c : Char) (member : c ∈ (toString n).toList) : c ∉ needle := by
  intro inNeedle
  have digit : c.isDigit = true := by
    rw [Nat.toString_eq_repr, Nat.repr_eq_ofList_toDigits, String.toList_ofList] at member
    exact Nat.isDigit_of_mem_toDigits (by decide) (by decide) member
  simpa [digit] using List.all_eq_true.mp digitless c inNeedle

theorem toString_ne_nil (n : Nat) : (toString n).toList ≠ [] := by
  rw [Nat.toString_eq_repr, Nat.repr_eq_ofList_toDigits, String.toList_ofList]
  exact Nat.toDigits_ne_nil

variable {needle head : String}

/-- What holds no digit and is not in the text around two numbers is not in the text. -/
theorem contains_around_numbers {middle tail : String} {first second : Nat} (nonempty : needle.toList ≠ [])
    (digitless : needle.toList.all (fun c => !c.isDigit) = true)
    (found : Text.contains needle (head ++ toString first ++ (middle ++ toString second ++ tail)) = true) :
    Text.contains needle head = true ∨ Text.contains needle middle = true ∨ Text.contains needle tail = true := by
  simp only [Text.contains_iff, String.toList_append] at found ⊢
  rcases Text.infix_of_infix_append_append nonempty (not_mem_of_digitless digitless) (toString_ne_nil first) found with
    inHead | later
  · exact Or.inl inHead
  · exact Or.inr (Text.infix_of_infix_append_append nonempty (not_mem_of_digitless digitless) (toString_ne_nil second) later)

theorem contains_head (back : String) (found : Text.contains needle head = true) :
    Text.contains needle (head ++ back) = true := by
  rw [Text.contains_iff, String.toList_append]
  exact (Text.contains_iff.mp found).trans (List.prefix_append _ _).isInfix

theorem contains_back {back : String} (head : String) (found : Text.contains needle back = true) :
    Text.contains needle (head ++ back) = true := by
  rw [Text.contains_iff, String.toList_append]
  exact (Text.contains_iff.mp found).trans (List.suffix_append _ _).isInfix

/-- A text in lower case, character by character. -/
theorem contains_asciiLower (needle text : List Char) :
    Text.contains (String.ofList needle) (Text.asciiLower (String.ofList text)) =
      decide (needle <:+: text.map Char.toLower) := by
  simp only [Text.contains, Text.asciiLower, String.toList_ofList]

theorem contains_asciiLower_append (needle front back : List Char) :
    Text.contains (String.ofList needle)
        (Text.asciiLower (String.ofList front) ++ Text.asciiLower (String.ofList back)) =
      decide (needle <:+: front.map Char.toLower ++ back.map Char.toLower) := by
  simp only [Text.contains, Text.asciiLower, String.toList_append, String.toList_ofList]

theorem isSqlserverMsg4305_tooRecent (log : LogBackup) (position : Nat) :
    isSqlserverMsg4305 (sqlcmdFailed (tooRecent log position)) = true := by
  unfold isSqlserverMsg4305 sqlcmdFailed tooRecent
  rw [asciiLower_answer, Bool.and_eq_true]
  constructor
  · exact contains_head _ (contains_head _ ((contains_asciiLower_append _ _ _).trans (by decide +kernel)))
  · exact contains_back _ (contains_head _ (contains_head _ ((contains_asciiLower _ _).trans (by decide +kernel))))

theorem isTooEarly_tooEarly (log : LogBackup) (position : Nat) :
    isTooEarly (sqlcmdFailed (tooEarly log position)) = true := by
  unfold isTooEarly sqlcmdFailed tooEarly
  rw [asciiLower_answer]
  exact contains_back _ (contains_head _ (contains_head _ ((contains_asciiLower _ _).trans (by decide +kernel))))

theorem isSqlserverMsg4305_tooEarly (log : LogBackup) (position : Nat) :
    isSqlserverMsg4305 (sqlcmdFailed (tooEarly log position)) = false := by
  unfold isSqlserverMsg4305 sqlcmdFailed tooEarly
  rw [asciiLower_answer, Bool.and_eq_false_iff]
  refine Or.inr (Bool.eq_false_iff.mpr fun found => ?_)
  have letters : ("too recent to apply".toList.all fun c => !c.isDigit) = true := by
    rw [String.toList_ofList]
    decide
  have stated : "too recent to apply".toList ≠ [] := by
    rw [String.toList_ofList]
    exact List.cons_ne_nil _ _
  rcases contains_around_numbers stated letters found with inHead | inMiddle | inTail
  · exact absurd ((contains_asciiLower_append _ _ _).symm.trans inHead) (by decide +kernel)
  · exact absurd ((contains_asciiLower _ _).symm.trans inMiddle) (by decide +kernel)
  · exact absurd ((contains_asciiLower _ _).symm.trans inTail) (by decide +kernel)

/-! ## What a turn does -/

inductive Verdict
  | applied
  | tooRecent
  | tooEarly
  | unconfirmed
  deriving DecidableEq

/-- The newest row of the target's history names the file. -/
def Database.names (lower : String → String) (db : Database) (file : String) : Bool :=
  exactIdentity lower (db.history.head?.getD noRow) file

/-- One log's turn.  It is unconfirmed when the answer was lost, the target did not apply it, and the
row the resume check reads was there before. -/
inductive Turn (lower : String → String) (stopat : Option Nat) (log : LogBackup) : Database → Database → Verdict → Prop
  | applied (db : Database) (begins : log.firstLsn ≤ db.position) (ends : db.position ≤ log.lastLsn) :
      Turn lower stopat log db (db.apply log stopat) .applied
  | tooRecent (db : Database) (gap : db.position < log.firstLsn) : Turn lower stopat log db db .tooRecent
  | tooEarly (db : Database) (behind : log.lastLsn < db.position) : Turn lower stopat log db db .tooEarly
  | unconfirmed (db : Database) (stale : db.names lower log.file = true) : Turn lower stopat log db db .unconfirmed

/-- The loop counts a log as restored. -/
def Verdict.counted : Verdict → Bool
  | .applied | .unconfirmed => true
  | .tooRecent | .tooEarly => false

/-- What a whole selection does, log by log; only the last log is stopped in. -/
inductive Trace (lower : String → String) (stopat : Option Nat) :
    Database → List LogBackup → List Verdict → Database → Prop
  | nil (db : Database) : Trace lower stopat db [] [] db
  | cons {before middle after : Database} {log : LogBackup} {rest : List LogBackup} {verdict : Verdict}
      {verdicts : List Verdict} (turn : Turn lower (if rest.isEmpty then stopat else none) log before middle verdict)
      (later : Trace lower stopat middle rest verdicts after) :
      Trace lower stopat before (log :: rest) (verdict :: verdicts) after

section Loop

variable {lower : String → String} {database : String} {stopat : Option Nat} {log : LogBackup} {link : Link}
  {before after : Database} {tally next : Tally}

/-- What the target answers, by the log's place. -/
theorem restoreLog_cases (db : Database) (log : LogBackup) (stopat : Option Nat) :
    (log.firstLsn ≤ db.position ∧ db.position ≤ log.lastLsn ∧ restoreLog db log stopat = .ok (db.apply log stopat)) ∨
    (db.position < log.firstLsn ∧ restoreLog db log stopat = .error (tooRecent log db.position)) ∨
    (log.lastLsn < db.position ∧ restoreLog db log stopat = .error (tooEarly log db.position)) := by
  unfold restoreLog
  by_cases gap : db.position < log.firstLsn
  · exact Or.inr (Or.inl ⟨gap, if_pos gap⟩)
  · by_cases behind : log.lastLsn < db.position
    · exact Or.inr (Or.inr ⟨behind, by rw [if_neg gap, if_pos behind]⟩)
    · exact Or.inl ⟨Nat.le_of_not_lt gap, Nat.le_of_not_lt behind, by rw [if_neg gap, if_neg behind]⟩

theorem ranUnseen_cases (db : Database) (log : LogBackup) (stopat : Option Nat) :
    (log.firstLsn ≤ db.position ∧ db.position ≤ log.lastLsn ∧ ranUnseen db log stopat = db.apply log stopat) ∨
      ranUnseen db log stopat = db := by
  unfold ranUnseen
  rcases restoreLog_cases db log stopat with ⟨begins, ends, ran⟩ | ⟨-, ran⟩ | ⟨-, ran⟩
  · exact Or.inl ⟨begins, ends, by rw [ran]⟩
  · exact Or.inr (by rw [ran])
  · exact Or.inr (by rw [ran])

theorem names_of_confirmed {db : Database} {file : String} {active : Option Bool}
    (confirmed : (inspectLogRestoreResumeState lower db file active).resumeDecision = .confirmedLastLogRestored) :
    db.names lower file = true := by
  cases active with
  | none => cases confirmed
  | some active =>
    simp only [inspectLogRestoreResumeState, ite_eq_left_iff, reduceCtorEq, imp_false, Decidable.not_not,
      Bool.and_eq_true] at confirmed
    exact confirmed.1

/-- A lost command the resume check settles. -/
theorem resumed_turn {seen : Database}
    (ran : seen = ranUnseen before log stopat ∨ seen = before) (named : seen.names lower log.file = true) :
    ∃ verdict, Turn lower stopat log before seen verdict ∧ verdict.counted = true := by
  rcases ran with rfl | rfl
  · rcases ranUnseen_cases before log stopat with ⟨begins, ends, applied⟩ | kept
    · rw [applied]
      exact ⟨.applied, .applied before begins ends, rfl⟩
    · rw [kept] at named ⊢
      exact ⟨.unconfirmed, .unconfirmed before named, rfl⟩
  · exact ⟨.unconfirmed, .unconfirmed seen named, rfl⟩

/-- A command that is answered and applied. -/
theorem runLog_answered (ran : restoreLog before log stopat = .ok after) :
    runLog lower database stopat log .answered before tally =
      (after, .ok { tally with results := tally.results ++ [⟨.success, log.file⟩] }) := by
  simp only [runLog, runRestoreStep, ran]

theorem runLog_tooRecent (gap : before.position < log.firstLsn) :
    runLog lower database stopat log .answered before tally =
      (before, .ok { tally with skipped4305 := tally.skipped4305 ++ [log.file] }) := by
  simp only [runLog, runRestoreStep, restoreLog, gap, isSqlserverMsg4305_tooRecent, if_true]

variable {total index : Nat} {links : Nat → Link}

/-- The loop goes on from a turn that ended well. -/
theorem runLogs_cons {rest : List LogBackup}
    (turned : runLog lower database (if index = total then stopat else none) log (links index) before tally = (after, .ok next)) :
    runLogs lower database total stopat links index (log :: rest) before tally =
      runLogs lower database total stopat links (index + 1) rest after next := by
  rw [runLogs, turned]

/-- A turn the loop goes on from. -/
theorem runLog_turn (done : runLog lower database stopat log link before tally = (after, .ok next)) :
    ∃ verdict, Turn lower stopat log before after verdict ∧
      next.results.length = tally.results.length + (if verdict.counted then 1 else 0) := by
  cases link with
  | answered =>
    rcases restoreLog_cases before log stopat with ⟨begins, ends, ran⟩ | ⟨gap, ran⟩ | ⟨behind, ran⟩
    · simp only [runLog_answered ran, Prod.mk.injEq, Except.ok.injEq] at done
      obtain ⟨rfl, rfl⟩ := done
      exact ⟨.applied, .applied before begins ends, by simp [Verdict.counted]⟩
    · simp only [runLog_tooRecent gap, Prod.mk.injEq, Except.ok.injEq] at done
      obtain ⟨rfl, rfl⟩ := done
      exact ⟨.tooRecent, .tooRecent before gap, by simp [Verdict.counted]⟩
    · simp only [runLog, runRestoreStep, ran, isSqlserverMsg4305_tooEarly, isTooEarly_tooEarly, Bool.false_eq_true,
        if_false, if_true, Prod.mk.injEq, Except.ok.injEq] at done
      obtain ⟨rfl, rfl⟩ := done
      exact ⟨.tooEarly, .tooEarly before behind, by simp [Verdict.counted]⟩
  | failed failure =>
    simp [runLog, runRestoreStep, failure.not_4305, failure.not_early] at done
  | lost text ran active =>
    simp only [runLog, runRestoreStep] at done
    have unseen : (if ran then ranUnseen before log stopat else before) = ranUnseen before log stopat ∨
        (if ran then ranUnseen before log stopat else before) = before := by
      cases ran with
      | true => exact Or.inl rfl
      | false => exact Or.inr rfl
    generalize (if ran then ranUnseen before log stopat else before) = seen at done unseen
    split at done
    · rename_i confirmed
      simp only [Prod.mk.injEq, Except.ok.injEq] at done
      obtain ⟨rfl, rfl⟩ := done
      obtain ⟨verdict, turn, counted⟩ := resumed_turn unseen (names_of_confirmed confirmed)
      exact ⟨verdict, turn, by simp [counted]⟩
    · cases congrArg Prod.snd done

theorem runLogs_trace {selected : List LogBackup} (last : index + selected.length = total + 1)
    (done : runLogs lower database total stopat links index selected before tally = (after, .ok next)) :
    ∃ verdicts, Trace lower stopat before selected verdicts after ∧
      next.results.length = tally.results.length + verdicts.countP Verdict.counted := by
  induction selected generalizing index before tally with
  | nil =>
    simp only [runLogs, Prod.mk.injEq, Except.ok.injEq] at done
    obtain ⟨rfl, rfl⟩ := done
    exact ⟨[], .nil before, rfl⟩
  | cons log rest ih =>
    have place : (index = total) ↔ rest.isEmpty = true := by
      rw [List.isEmpty_iff, ← List.length_eq_zero_iff]
      simp only [List.length_cons] at last
      omega
    simp only [runLogs, place] at done
    split at done
    · cases congrArg Prod.snd done
    · rename_i middle tally' turned
      obtain ⟨verdict, turn, grown⟩ := runLog_turn turned
      obtain ⟨verdicts, later, counted⟩ := ih (by simp only [List.length_cons] at last; omega) done
      refine ⟨verdict :: verdicts, .cons turn later, ?_⟩
      rw [counted, grown, List.countP_cons]
      omega

end Loop

/-! ## What was applied -/

/-- The logs are joined end to end, from one position to the other; the last may be stopped in. -/
def Joined (stopat : Option Nat) : Nat → List LogBackup → Nat → Prop
  | start, [], reached => start = reached
  | start, log :: rest, reached => log.firstLsn ≤ start ∧ start ≤ log.lastLsn ∧
      Joined stopat (log.endsAt start (if rest.isEmpty then stopat else none)) rest reached

/-- Every log begins at or before the farthest end ahead of it. -/
def Gapless : Nat → List LogBackup → Prop
  | _, [] => True
  | reached, log :: rest => log.firstLsn ≤ reached ∧ Gapless (max reached log.lastLsn) rest

def appliedLogs : List LogBackup → List Verdict → List LogBackup
  | log :: rest, .applied :: verdicts => log :: appliedLogs rest verdicts
  | _ :: rest, _ :: verdicts => appliedLogs rest verdicts
  | _, _ => []

/-- The moment is stopped at where the last of the selected logs is applied. -/
def stopOf (stopat : Option Nat) (verdicts : List Verdict) : Option Nat :=
  if verdicts.getLast? = some .applied then stopat else none

section Traced

variable {lower : String → String} {stopat : Option Nat} {before after : Database} {selected : List LogBackup}
  {verdicts : List Verdict}
variable {log : LogBackup} {rest : List LogBackup} {verdict : Verdict}

theorem appliedLogs_cons {later : List Verdict} (other : verdict ≠ .applied) :
    appliedLogs (log :: rest) (verdict :: later) = appliedLogs rest later := by
  cases verdict with
  | applied => exact absurd rfl other
  | tooRecent => rfl
  | tooEarly => rfl
  | unconfirmed => rfl

theorem appliedLogs_ne_nil (trace : Trace lower stopat before selected verdicts after)
    (last : verdicts.getLast? = some .applied) : appliedLogs selected verdicts ≠ [] := by
  induction trace with
  | nil db => cases last
  | @cons before middle after log rest verdict verdicts turn later ih =>
    by_cases applied : verdict = .applied
    · subst applied
      exact List.cons_ne_nil _ _
    · rw [appliedLogs_cons applied]
      cases later with
      | nil db => exact absurd (Option.some.inj last) applied
      | cons next further => exact ih (by rwa [List.getLast?_cons_cons] at last)

theorem joined_of_trace (trace : Trace lower stopat before selected verdicts after) :
    Joined (stopOf stopat verdicts) before.position (appliedLogs selected verdicts) after.position := by
  induction trace with
  | nil db => exact rfl
  | @cons before middle after log rest verdict verdicts turn later ih =>
    cases later with
    | nil db =>
      cases turn with
      | applied begins ends => exact ⟨begins, ends, rfl⟩
      | tooRecent gap => exact rfl
      | tooEarly behind => exact rfl
      | unconfirmed stale => exact rfl
    | @cons _ _ _ next rest second verdicts next_turn further =>
      have same : stopOf stopat (verdict :: second :: verdicts) = stopOf stopat (second :: verdicts) := by
        rw [stopOf, stopOf, List.getLast?_cons_cons]
      rw [same]
      cases turn with
      | applied begins ends =>
        refine ⟨begins, ends, ?_⟩
        -- A log is stopped in where it is the last applied and the last selected, which this one is not.
        have whole : (if (appliedLogs (next :: rest) (second :: verdicts)).isEmpty then
            stopOf stopat (second :: verdicts) else none) = none := by
          split
          · rename_i nothing
            refine if_neg fun last => ?_
            exact appliedLogs_ne_nil (.cons next_turn further) last (List.isEmpty_iff.mp nothing)
          · rfl
        rw [whole]
        exact ih
      | tooRecent gap => exact ih
      | tooEarly behind => exact ih
      | unconfirmed stale => exact ih

/-- With every answer confirmed, a log is too recent exactly when the selection has a gap. -/
theorem tooRecent_not_mem_iff (trace : Trace lower stopat before selected verdicts after)
    (confirmed : .unconfirmed ∉ verdicts) : .tooRecent ∉ verdicts ↔ Gapless before.position selected := by
  induction trace with
  | nil db => exact iff_of_true List.not_mem_nil trivial
  | @cons before middle after log rest verdict verdicts turn later ih =>
    simp only [List.mem_cons, not_or] at confirmed
    simp only [List.mem_cons, not_or, ih confirmed.2, Gapless]
    cases turn with
    | applied begins ends =>
      cases rest with
      | nil => simp [begins, Gapless]
      | cons next rest => simp [begins, Database.apply, LogBackup.endsAt]
    | tooRecent gap => simp [Nat.not_le_of_lt gap]
    | tooEarly behind =>
      have begins : log.firstLsn ≤ before.position := log.ordered.trans behind.le
      rw [max_eq_left behind.le]
      simp [begins]
    | unconfirmed stale => exact absurd rfl confirmed.1

/-- The history names none of the selected files, and no file is selected twice. -/
def Fresh (lower : String → String) (db : Database) (selected : List LogBackup) : Prop :=
  (∀ row ∈ db.history, ∀ log ∈ selected, exactIdentity lower row log.file = false) ∧
    selected.Pairwise fun log other => normalizeRestorePath lower log.file ≠ normalizeRestorePath lower other.file

theorem exactIdentity_row_eq_false {other : LogBackup} {setId : Nat} (named : log.file ≠ "")
    (differ : normalizeRestorePath lower log.file ≠ normalizeRestorePath lower other.file) :
    exactIdentity lower (log.row setId) other.file = false := by
  simp [exactIdentity, LogBackup.row, named, differ]

theorem Fresh.after_turn {stop : Option Nat} (turn : Turn lower stop log before after verdict) (named : log.file ≠ "")
    (fresh : Fresh lower before (log :: rest)) : Fresh lower after rest := by
  obtain ⟨absent, distinct⟩ := fresh
  obtain ⟨differ, later⟩ := List.pairwise_cons.mp distinct
  refine ⟨?_, later⟩
  cases turn with
  | applied begins ends =>
    intro row member other selected
    rcases List.mem_cons.mp member with rfl | old
    · exact exactIdentity_row_eq_false named (differ other selected)
    · exact absent row old other (List.mem_cons_of_mem _ selected)
  | tooRecent _ | tooEarly _ | unconfirmed _ => exact fun row member other selected => absent row member other (List.mem_cons_of_mem _ selected)

/-- On a fresh history every lost answer the resume check settles is settled rightly. -/
theorem unconfirmed_not_mem_of_fresh (trace : Trace lower stopat before selected verdicts after)
    (named : ∀ log ∈ selected, log.file ≠ "") (fresh : Fresh lower before selected) : .unconfirmed ∉ verdicts := by
  induction trace with
  | nil db => exact List.not_mem_nil
  | @cons before middle after log rest verdict verdicts turn later ih =>
    have now : verdict ≠ .unconfirmed := by
      rintro rfl
      cases turn with
      | unconfirmed stale =>
        unfold Database.names at stale
        cases rows : before.history with
        | nil => simp [rows, exactIdentity, noRow] at stale
        | cons row older =>
          have other := fresh.1 row (by simp [rows]) log List.mem_cons_self
          simp [rows, other] at stale
    simp only [List.mem_cons, not_or]
    exact ⟨now.symm, ih (fun log member => named log (List.mem_cons_of_mem _ member))
      (fresh.after_turn turn (named log List.mem_cons_self))⟩

end Traced

section Settled

variable {lower : String → String} {database : String} {stopat : Option Nat} {links : Nat → Link}
  {before after : Database} {selected : List LogBackup} {answer : Answer} {verdicts : List Verdict}

/-- What a step that ends well answers with is the loop's tally of a trace. -/
theorem results_of_success (done : runRestoreLog lower database stopat links before selected = (after, .ok answer))
    (success : answer.status = .success) :
    ∃ verdicts, Trace lower stopat before selected verdicts after ∧
      answer.results.length = verdicts.countP Verdict.counted ∧ answer.results ≠ [] := by
  unfold runRestoreLog at done
  split at done
  · simp only [Prod.mk.injEq, Except.ok.injEq] at done
    obtain ⟨-, rfl⟩ := done
    cases success
  · split at done
    · cases congrArg Prod.snd done
    · rename_i reached tally looped
      split at done
      · cases congrArg Prod.snd done
      · rename_i some_result
        simp only [Prod.mk.injEq, Except.ok.injEq] at done
        obtain ⟨rfl, rfl⟩ := done
        obtain ⟨verdicts, trace, counted⟩ := runLogs_trace (Nat.add_comm _ _) looped
        exact ⟨verdicts, trace, by simpa using counted, some_result⟩

/-- A step that ends well comes from a trace in which the loop counted a log. -/
theorem trace_of_success (done : runRestoreLog lower database stopat links before selected = (after, .ok answer))
    (success : answer.status = .success) :
    ∃ verdicts, Trace lower stopat before selected verdicts after ∧
      ∃ verdict ∈ verdicts, verdict.counted = true := by
  obtain ⟨verdicts, trace, counted, some_result⟩ := results_of_success done success
  exact ⟨verdicts, trace, List.countP_pos_iff.mp (counted ▸ List.length_pos_iff.mpr some_result)⟩

/-- A step that ends well left no log out for a gap, and a point-in-time restore reached its last log. -/
def LeavesNoHole (lower : String → String) (database : String) (stopat : Option Nat) (links : Nat → Link)
    (before : Database) (selected : List LogBackup) : Prop :=
  ∀ after answer, runRestoreLog lower database stopat links before selected = (after, .ok answer) →
    answer.status = .success →
      ∃ verdicts, Trace lower stopat before selected verdicts after ∧
        (∀ verdict ∈ verdicts, verdict = .applied ∨ verdict = .tooEarly) ∧
        (stopat.isSome = true → verdicts.getLast? = some .applied)

/-- What a step that ends well says of the selection: some log was counted as restored, what was applied is joined from
the database's position to where it now stands, inside the last selected log where that is applied and holds the moment
to stop at, and no log is left out as too recent exactly when the selection has no gap. -/
theorem success_joins_what_it_applied
    (done : runRestoreLog lower database stopat links before selected = (after, .ok answer))
    (success : answer.status = .success) :
    ∃ verdicts, Trace lower stopat before selected verdicts after ∧
      (∃ verdict ∈ verdicts, verdict.counted = true) ∧
      Joined (stopOf stopat verdicts) before.position (appliedLogs selected verdicts) after.position ∧
      (.unconfirmed ∉ verdicts → (.tooRecent ∉ verdicts ↔ Gapless before.position selected)) := by
  obtain ⟨verdicts, trace, counted⟩ := trace_of_success done success
  exact ⟨verdicts, trace, counted, joined_of_trace trace, tooRecent_not_mem_iff trace⟩

def restoringAt (position : Nat) : Database := ⟨position, []⟩

def logAt (file : String) (first length : Nat) : LogBackup := ⟨file, first, first + length, Nat.le_add_right first length⟩

/-- Two logs with a gap between them. -/
def gapLogs : List LogBackup := [logAt "/import/log_1.trn" 50 100, logAt "/import/log_3.trn" 300 100]

theorem gap_logs_run : runRestoreLog id "Sales" (some 350) (fun _ => .answered) (restoringAt 100) gapLogs =
    ((restoringAt 100).apply (logAt "/import/log_1.trn" 50 100) none,
      .ok ⟨.success, ["/import/log_1.trn", "/import/log_3.trn"], [⟨.success, "/import/log_1.trn"⟩]⟩) := by
  have first : runLog id "Sales" (if 1 = 2 then some 350 else none) (logAt "/import/log_1.trn" 50 100) .answered
      (restoringAt 100) ⟨[], []⟩ =
        ((restoringAt 100).apply (logAt "/import/log_1.trn" 50 100) none,
          .ok ⟨[⟨.success, "/import/log_1.trn"⟩], []⟩) :=
    runLog_answered rfl
  have later : ((restoringAt 100).apply (logAt "/import/log_1.trn" 50 100) none).position <
      (logAt "/import/log_3.trn" 300 100).firstLsn := by decide
  have second : runLog id "Sales" (if 1 + 1 = 2 then some 350 else none) (logAt "/import/log_3.trn" 300 100) .answered
      ((restoringAt 100).apply (logAt "/import/log_1.trn" 50 100) none) ⟨[⟨.success, "/import/log_1.trn"⟩], []⟩ =
        ((restoringAt 100).apply (logAt "/import/log_1.trn" 50 100) none,
          .ok ⟨[⟨.success, "/import/log_1.trn"⟩], ["/import/log_3.trn"]⟩) :=
    runLog_tooRecent later
  have looped : runLogs id "Sales" 2 (some 350) (fun _ => .answered) 1 gapLogs (restoringAt 100) ⟨[], []⟩ =
      ((restoringAt 100).apply (logAt "/import/log_1.trn" 50 100) none,
        .ok ⟨[⟨.success, "/import/log_1.trn"⟩], ["/import/log_3.trn"]⟩) :=
    (runLogs_cons first).trans (runLogs_cons second)
  unfold runRestoreLog
  rw [if_neg (show gapLogs ≠ [] from List.cons_ne_nil _ _), show gapLogs.length = 2 from rfl, looped]
  rfl

/-- The second log, with the moment to stop at, is left out and the step ends well. -/
theorem gap_ends_well : ¬ LeavesNoHole id "Sales" (some 350) (fun _ => .answered) (restoringAt 100) gapLogs := by
  intro noHole
  obtain ⟨verdicts, trace, taken, -⟩ := noHole _ _ gap_logs_run rfl
  have confirmed : .unconfirmed ∉ verdicts := by
    intro member
    rcases taken _ member with impossible | impossible <;> cases impossible
  have recent : .tooRecent ∉ verdicts := by
    intro member
    rcases taken _ member with impossible | impossible <;> cases impossible
  have gapless : Gapless 100 gapLogs := (tooRecent_not_mem_iff trace confirmed).mp recent
  exact absurd gapless.2.1 (by decide)

/-- The only log is stopped in. -/
theorem one_log_run : runRestoreLog id "Sales" (some 120) (fun _ => .answered) (restoringAt 100)
    [logAt "/import/log_1.trn" 50 100] =
      ((restoringAt 100).apply (logAt "/import/log_1.trn" 50 100) (some 120),
        .ok ⟨.success, ["/import/log_1.trn"], [⟨.success, "/import/log_1.trn"⟩]⟩) := by
  simp [runRestoreLog, runLogs, runLog, runRestoreStep, restoreLog, restoringAt, logAt, Database.apply]

theorem success_joins_one_log : ∃ verdicts,
    Trace id (some 120) (restoringAt 100) [logAt "/import/log_1.trn" 50 100] verdicts
      ((restoringAt 100).apply (logAt "/import/log_1.trn" 50 100) (some 120)) ∧
    (∃ verdict ∈ verdicts, verdict.counted = true) ∧
    Joined (stopOf (some 120) verdicts) 100 (appliedLogs [logAt "/import/log_1.trn" 50 100] verdicts) 120 ∧
    (.unconfirmed ∉ verdicts → (.tooRecent ∉ verdicts ↔ Gapless 100 [logAt "/import/log_1.trn" 50 100])) :=
  @success_joins_what_it_applied id "Sales" (some 120) (fun _ => .answered) (restoringAt 100) _ _
    ⟨.success, ["/import/log_1.trn"], [⟨.success, "/import/log_1.trn"⟩]⟩ one_log_run rfl

/-! ## On a fresh history -/

theorem countP_eq_length_appliedLogs (trace : Trace lower stopat before selected verdicts after)
    (confirmed : .unconfirmed ∉ verdicts) :
    verdicts.countP Verdict.counted = (appliedLogs selected verdicts).length := by
  induction trace with
  | nil db => rfl
  | cons turn later ih =>
    simp only [List.mem_cons, not_or] at confirmed
    have tail := ih confirmed.2
    cases turn with
    | applied begins ends => simp [appliedLogs, List.countP_cons, Verdict.counted, tail]
    | tooRecent gap => simp [appliedLogs, Verdict.counted, tail]
    | tooEarly behind => simp [appliedLogs, Verdict.counted, tail]
    | unconfirmed stale => exact absurd rfl confirmed.1

/-- Where the farthest of the logs ends, if it is ahead; the last is read up to the moment to stop at. -/
def farthestEnd (stopat : Option Nat) : Nat → List LogBackup → Nat
  | position, [] => position
  | position, log :: rest => farthestEnd stopat (log.endsAt position (if rest.isEmpty then stopat else none)) rest

theorem position_of_trace (trace : Trace lower stopat before selected verdicts after)
    (confirmed : .unconfirmed ∉ verdicts) (gapless : Gapless before.position selected) :
    after.position = farthestEnd stopat before.position selected := by
  induction trace with
  | nil db => rfl
  | @cons before middle after log rest verdict verdicts turn later ih =>
    simp only [List.mem_cons, not_or] at confirmed
    obtain ⟨begins, rest_gapless⟩ := gapless
    have moved : middle.position = log.endsAt before.position (if rest.isEmpty then stopat else none) := by
      cases turn with
      | applied _ ends => rfl
      | tooRecent gap => exact absurd begins (Nat.not_le_of_lt gap)
      | tooEarly behind =>
        unfold LogBackup.endsAt
        split <;> omega
      | unconfirmed stale => exact absurd rfl confirmed.1
    have onward : Gapless middle.position rest := by
      cases rest with
      | nil => trivial
      | cons next rest => rwa [moved]
    rw [ih confirmed.2 onward, moved]
    rfl

/-- A step that ends well on a history without the selected files counts the logs it applied and no others, whichever
answers were lost; they are joined to where it leaves the database, and a selection without a gap brings it to the
farthest end, the last log read up to the moment to stop at. -/
theorem fresh_history_counts_what_it_applied
    (done : runRestoreLog lower database stopat links before selected = (after, .ok answer))
    (success : answer.status = .success) (named : ∀ log ∈ selected, log.file ≠ "")
    (fresh : Fresh lower before selected) :
    ∃ verdicts, Trace lower stopat before selected verdicts after ∧
      answer.results.length = (appliedLogs selected verdicts).length ∧
      Joined (stopOf stopat verdicts) before.position (appliedLogs selected verdicts) after.position ∧
      (Gapless before.position selected → after.position = farthestEnd stopat before.position selected) := by
  obtain ⟨verdicts, trace, counted, -⟩ := results_of_success done success
  have confirmed := unconfirmed_not_mem_of_fresh trace named fresh
  exact ⟨verdicts, trace, counted.trans (countP_eq_length_appliedLogs trace confirmed), joined_of_trace trace,
    position_of_trace trace confirmed⟩

/-- The answer to the only log is lost after the server ran it, and its session is gone when the resume check looks. -/
theorem lost_answer_run : runRestoreLog id "Sales" (some 120) (fun _ => .lost "restore timed out" true (some false))
    (restoringAt 100) [logAt "/import/log_1.trn" 50 100] =
      ((restoringAt 100).apply (logAt "/import/log_1.trn" 50 100) (some 120),
        .ok ⟨.success, ["/import/log_1.trn"], [⟨.successResumed, "/import/log_1.trn"⟩]⟩) := by
  rfl

theorem lost_answer_counts_what_it_applied : ∃ verdicts,
    Trace id (some 120) (restoringAt 100) [logAt "/import/log_1.trn" 50 100] verdicts
      ((restoringAt 100).apply (logAt "/import/log_1.trn" 50 100) (some 120)) ∧
    1 = (appliedLogs [logAt "/import/log_1.trn" 50 100] verdicts).length ∧
    Joined (stopOf (some 120) verdicts) 100 (appliedLogs [logAt "/import/log_1.trn" 50 100] verdicts) 120 ∧
    (Gapless 100 [logAt "/import/log_1.trn" 50 100] →
      120 = farthestEnd (some 120) 100 [logAt "/import/log_1.trn" 50 100]) :=
  fresh_history_counts_what_it_applied lost_answer_run rfl (by simp [logAt]) (by simp [Fresh, restoringAt])

end Settled

end DbaBrain.BackupRestore.RestoreLog
