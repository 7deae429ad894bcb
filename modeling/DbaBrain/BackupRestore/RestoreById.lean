import DbaBrain.Lib.RestoreMoment
import DbaBrain.Lib.SqlServerBackupChain

/-!
# The logs a restore by its id applies

A restore to a moment applies the logs of a listing up to the one that holds
the moment.  The planner compares clocks as texts and goes on past a log that
finishes in the moment's own second; the chain rule compares seconds and stops
there.  The two cut a listing alike unless a log that is not its last finishes
in that second.
-/

namespace DbaBrain.BackupRestore.RestoreById

open DbaBrain.Foundation.Calendar DbaBrain.Foundation.Selection DbaBrain.Foundation.Text
open DbaBrain.Lib DbaBrain.Lib.Coerce DbaBrain.Lib.Stamps DbaBrain.Lib.Strptime
open DbaBrain.Lib.RestoreMoment DbaBrain.Lib.SqlServerBackupChain

variable {ι : Type}

/-! ## The planner's cut -/

/-- A row of the listing; the plan reads its finish and hands on the rest. -/
structure ListedFile (ι : Type) where
  item : ι
  finishedAt : Option String

def withoutFraction (text : String) : String :=
  let head := text.toList.takeWhile (· ≠ '.')
  let rest := text.toList.drop (head.length + 1)
  if '.' ∈ text.toList ∧ 19 ≤ head.length then
    String.ofList (head ++ rest.dropWhile fun c => '0' ≤ c && c ≤ '9')
  else text

/-- `Z` read as the offset of UTC. -/
def zuluAtEnd (text : String) : String :=
  if text.toList.getLast? = some 'Z' then String.ofList text.toList.dropLast ++ "+00:00" else text

/-- The server's clock of a text; a text that is no moment is cut to nineteen characters. -/
def clock (text : String) : Except Failure String :=
  let text := withoutFraction (strip text)
  match serverClockText (zuluAtEnd text) with
  | .ok shown => .ok shown
  | .error .overflow => .error .overflow
  | .error _ => .ok (take 19 (replaceChar 'T' ' ' text))

/-- The rows up to the first whose clock is past the bound; a row that states no finish never is. -/
def through (bound : String) : List (ListedFile ι) → Except Failure (List (ListedFile ι))
  | [] => .ok []
  | file :: rest =>
      let onward := do
        let later ← through bound rest
        return file :: later
      match file.finishedAt with
      | none => onward
      | some "" => onward
      | some stamp => do
          let finished ← clock stamp
          if bound < finished then return [file] else onward

def logsThrough (files : List (ListedFile ι)) (moment : String) : Except Failure (List (ListedFile ι)) := do
  let bound ← clock moment
  through bound files

/-! ## What the clocks read -/

variable {text : String}

theorem withoutFraction_eq_self (whole : '.' ∉ text.toList) : withoutFraction text = text := by
  unfold withoutFraction
  rw [if_neg fun fraction => whole fraction.1]

theorem zuluAtEnd_eq_self (zoneless : 'Z' ∉ text.toList) : zuluAtEnd text = text := by
  unfold zuluAtEnd
  rw [if_neg fun last => zoneless (List.mem_of_getLast? last)]

theorem clock_eq_ok {moment : Moment} (whole : strip text = text) (noFraction : '.' ∉ text.toList)
    (noZulu : 'Z' ∉ text.toList) (read : parseMoment text = .ok (instantOf moment)) :
    clock text = .ok (stampText moment) := by
  have shown : serverClockText (zuluAtEnd (withoutFraction (strip text))) = .ok (stampText moment) := by
    rw [whole, withoutFraction_eq_self noFraction, zuluAtEnd_eq_self noZulu, serverClockText, read, Except.map,
      secondOf_instantOf]
  unfold clock
  simp only [shown]

/-- A listing's stamp is a clock already. -/
theorem clock_stampText (moment : Moment) : clock (stampText moment) = .ok (stampText moment) :=
  clock_eq_ok (strip_stampText moment) (fun dot => (ne_of_mem_stampText dot).2.2.1 rfl)
    (fun zulu => (ne_of_mem_stampText zulu).2.2.2 rfl) (parseMoment_stampText moment)

/-! ## The logs and the target -/

/-- A log backup: when it finished, and the text a listing states it with. -/
structure LogBackup (ι : Type) where
  item : ι
  finish : Instant
  finishedAt : String
  inCalendar : inCalendar finish = true
  reads : clock finishedAt = .ok (stampText (secondOf finish))

/-- A moment asked for, as a whole second and as the text that names it. -/
structure Target where
  text : String
  moment : Moment
  reads : clock text = .ok (stampText moment)

namespace LogBackup

def second (log : LogBackup ι) : Moment := secondOf log.finish

def listed (log : LogBackup ι) : ListedFile ι := ⟨log.item, some log.finishedAt⟩

/-- Seconds since the first of January 1970, as the chain rule counts them. -/
def timestamp (log : LogBackup ι) : ℚ := log.finish / microsecondsPerSecond - 62135596800

def candidate (database : String) (log : LogBackup ι) : Candidate ι ℚ :=
  ⟨log.item, database, some .log, log.timestamp⟩

/-- A log as a listing states it: its stamp, without the fraction. -/
def stamped (item : ι) (finish : Instant) (there : RestoreMoment.inCalendar finish = true) : LogBackup ι :=
  ⟨item, finish, stampText (secondOf finish), there, clock_stampText _⟩

end LogBackup

theorem second_val (log : LogBackup ι) : (log.second.val : Int) = log.finish / microsecondsPerSecond := by
  have there := log.inCalendar
  unfold inCalendar at there
  simp only [Bool.and_eq_true, decide_eq_true_eq] at there
  have positive : (0 : Int) < microsecondsPerSecond := by decide
  have low : 0 ≤ log.finish / microsecondsPerSecond := Int.ediv_nonneg there.1 positive.le
  have high : log.finish / microsecondsPerSecond < 315537897600 := Int.ediv_lt_of_lt_mul positive there.2
  unfold LogBackup.second secondOf
  rw [Fin.val_ofNat, Nat.mod_eq_of_lt ((Int.toNat_lt low).mpr high), Int.toNat_of_nonneg low]

/-- A log reaches a whole second by its timestamp exactly when its own second does. -/
theorem epoch_le_timestamp_iff (log : LogBackup ι) (moment : Moment) :
    moment.epoch ≤ log.timestamp ↔ moment ≤ log.second := by
  have positive : (0 : ℚ) < microsecondsPerSecond := by decide
  unfold LogBackup.timestamp Moment.epoch
  rw [sub_le_sub_iff_right, le_div_iff₀ positive, Fin.le_def, ← Int.ofNat_le, second_val,
    Int.le_ediv_iff_mul_le (by decide)]
  exact_mod_cast Iff.rfl

variable {first second : LogBackup ι}

theorem timestamp_le_of_finish (before : first.finish ≤ second.finish) : first.timestamp ≤ second.timestamp := by
  have positive : (0 : ℚ) ≤ microsecondsPerSecond := by decide
  have later : (first.finish : ℚ) ≤ second.finish := Int.cast_le.mpr before
  exact sub_le_sub_right (div_le_div_of_nonneg_right later positive) _

theorem second_le_of_finish (before : first.finish ≤ second.finish) : first.second ≤ second.second := by
  rw [Fin.le_def, ← Int.ofNat_le, second_val, second_val]
  exact Int.ediv_le_ediv (by decide) before

/-! ## The two cuts -/

/-- The planner keeps the logs up to the first past the target's second. -/
theorem logsThrough_eq (logs : List (LogBackup ι)) (target : Target) :
    logsThrough (logs.map LogBackup.listed) target.text =
      .ok ((throughFirst (fun log => decide (target.moment < log.second)) logs).map LogBackup.listed) := by
  have kept : through (stampText target.moment) (logs.map LogBackup.listed) =
      .ok ((throughFirst (fun log => decide (target.moment < log.second)) logs).map LogBackup.listed) := by
    induction logs with
    | nil => rfl
    | cons log rest ih =>
      have stated : log.finishedAt ≠ "" := by
        intro empty
        have reads := log.reads
        rw [empty] at reads
        have read : clock "" = .ok "" := by decide
        rw [read] at reads
        have length := stampText_length (secondOf log.finish)
        rw [← Except.ok.inj reads] at length
        cases length
      have reached : (stampText target.moment < stampText (secondOf log.finish)) ↔ target.moment < log.second :=
        stampText_strictMono.lt_iff_lt
      rw [List.map_cons, through, throughFirst]
      dsimp only [LogBackup.listed]
      split
      · rename_i absent
        cases absent
      · rename_i empty
        exact absurd (Option.some.inj empty) stated
      · rename_i stamp present
        cases present
        rw [log.reads]
        change (if stampText target.moment < stampText (secondOf log.finish) then
          Except.ok [log.listed] else _) = _
        by_cases past : target.moment < log.second
        · rw [if_pos (reached.mpr past), if_pos (by simpa using past)]
          rfl
        · rw [if_neg fun ahead => past (reached.mp ahead), if_neg (by simpa using past), ih]
          rfl
  unfold logsThrough
  rw [target.reads]
  exact kept

/-- After a FULL the moment admits, the chain's logs are those up to the first that reaches the target. -/
theorem chain_logs_eq {database : String} {full : Candidate ι ℚ} {logs : List (LogBackup ι)} {target : Target}
    (is_full : full.kind = some .full) (admitted : full.timestamp ≤ target.moment.epoch)
    (after : ∀ log ∈ logs, full.timestamp ≤ log.timestamp)
    (sorted : logs.Pairwise fun first second => first.finish ≤ second.finish) :
    (chainOf (some target.moment.epoch) (full :: logs.map (LogBackup.candidate database))).map Chain.logs =
      some ((throughFirst (fun log => decide (target.moment ≤ log.second)) logs).map
        (LogBackup.candidate database)) := by
  have kinds : ∀ c ∈ logs.map (LogBackup.candidate database), c.kind = some .log := by
    intro c member
    obtain ⟨log, -, rfl⟩ := List.mem_map.mp member
    rfl
  have fulls : fullsOf (some target.moment.epoch) (full :: logs.map (LogBackup.candidate database)) = [full] := by
    unfold fullsOf
    rw [List.filter_cons_of_pos (by simp [is_full, atOrBefore, admitted]), List.filter_eq_nil_iff.mpr]
    intro c member
    simp [kinds c member]
  have diffs : diffsOf (some target.moment.epoch) full (full :: logs.map (LogBackup.candidate database)) = [] := by
    unfold diffsOf
    rw [List.filter_eq_nil_iff]
    intro c member
    rcases List.mem_cons.mp member with rfl | among
    · simp [is_full]
    · simp [kinds c among]
  have all : logsAfter full.timestamp (full :: logs.map (LogBackup.candidate database)) =
      logs.map (LogBackup.candidate database) := by
    unfold logsAfter
    rw [List.filter_cons_of_neg (by simp [is_full]), List.filter_eq_self.mpr, sortedBy_eq_self]
    · rw [List.pairwise_map]
      exact sorted.imp fun before => timestamp_le_of_finish before
    · intro c member
      obtain ⟨log, there, rfl⟩ := List.mem_map.mp member
      simp only [LogBackup.candidate, decide_true, Bool.true_and]
      exact decide_eq_true (after log there)
  have reaches : (fun log : LogBackup ι => decide (target.moment.epoch ≤ log.timestamp)) =
      fun log => decide (target.moment ≤ log.second) :=
    funext fun log => decide_eq_decide.mpr (epoch_le_timestamp_iff log target.moment)
  unfold chainOf
  rw [fulls, List.argmax_singleton]
  simp only [Option.map_some, chainFrom, diffs, List.argmax_nil, Option.getD_none, all, cutLogs]
  rw [throughFirst_map]
  exact congrArg (fun reach => some ((throughFirst reach logs).map (LogBackup.candidate database))) reaches

/-- The two routes cut a database's logs alike exactly when no log but the last finishes in the target's second. -/
theorem cut_alike_iff {database : String} {full : Candidate ι ℚ} {logs : List (LogBackup ι)} {target : Target}
    (is_full : full.kind = some .full) (admitted : full.timestamp ≤ target.moment.epoch)
    (after : ∀ log ∈ logs, full.timestamp ≤ log.timestamp)
    (sorted : logs.Pairwise fun first second => first.finish ≤ second.finish) :
    (logsThrough (logs.map LogBackup.listed) target.text).toOption.map (List.map ListedFile.item) =
        (chainOf (some target.moment.epoch) (full :: logs.map (LogBackup.candidate database))).map
          (fun chain => chain.logs.map Candidate.item) ↔
      ∀ log ∈ logs.dropLast, log.second ≠ target.moment := by
  have chain := @chain_logs_eq ι database full logs target is_full admitted after sorted
  have seconds : logs.Pairwise fun first second => first.second ≤ second.second :=
    sorted.imp fun before => second_le_of_finish before
  have items (kept : List (LogBackup ι)) : (kept.map (LogBackup.candidate database)).map Candidate.item =
      kept.map LogBackup.item := by
    rw [List.map_map]
    rfl
  have listed (kept : List (LogBackup ι)) : (kept.map LogBackup.listed).map ListedFile.item = kept.map LogBackup.item := by
    rw [List.map_map]
    rfl
  have chosen := congrArg (Option.map (List.map Candidate.item)) chain
  rw [Option.map_map, Option.map_some, items] at chosen
  rw [logsThrough_eq, Except.toOption, Option.map_some, listed]
  change _ = Option.map (List.map Candidate.item ∘ Chain.logs) _ ↔ _
  rw [chosen, Option.some.injEq]
  exact throughFirst_past_eq_iff LogBackup.item seconds

/-! ## A log that finishes at the target -/

def fullAt : Candidate Nat ℚ := ⟨0, "sales", some .full, 1000⟩

def logAt (item : Nat) (moment : Moment) : LogBackup Nat :=
  .stamped item (instantOf moment) (inCalendar_instantOf moment)

/-- 2026-09-24 23:13:40 UTC, typed on a clock eight hours ahead. -/
def askedAt : Target := ⟨"2026-09-25 07:13:40 +08:00", 63925888420, by decide +kernel⟩

/-- The log that finishes at the target is followed by the next one on one route only. -/
theorem log_past_the_target_is_applied :
    (logsThrough ([logAt 1 63925888420, logAt 2 63925889320].map LogBackup.listed) askedAt.text).toOption.map
        (List.map ListedFile.item) = some [1, 2] ∧
      (chainOf (some askedAt.moment.epoch)
          (fullAt :: [logAt 1 63925888420, logAt 2 63925889320].map (LogBackup.candidate "sales"))).map
        (fun chain => chain.logs.map Candidate.item) = some [1] := by
  constructor
  · decide +kernel
  · decide +kernel

theorem cut_alike_between_logs :
    (logsThrough ([logAt 1 63925888000, logAt 2 63925888900].map LogBackup.listed) askedAt.text).toOption.map
        (List.map ListedFile.item) =
      (chainOf (some askedAt.moment.epoch)
          (fullAt :: [logAt 1 63925888000, logAt 2 63925888900].map (LogBackup.candidate "sales"))).map
        (fun chain => chain.logs.map Candidate.item) :=
  (cut_alike_iff rfl (by decide +kernel) (by decide +kernel) (by decide +kernel)).mpr (by decide +kernel)

end DbaBrain.BackupRestore.RestoreById
