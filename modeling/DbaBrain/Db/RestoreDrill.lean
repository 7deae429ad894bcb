import DbaBrain.Foundation.Dict
import DbaBrain.Foundation.Double
import DbaBrain.Foundation.Selection
import DbaBrain.Lib.Coerce

/-!
# Restore drills against a policy

Each database's newest attempt and newest success are kept while the rows of the
restore history go by, and a verdict is made of the two.  It is the newest finished
attempt's, in whatever order the rows come, exactly where nothing hides a failure
behind the success and the age is not rounded across the limit.
-/

namespace DbaBrain.Db.RestoreDrill

open DbaBrain.Foundation DbaBrain.Foundation.Double DbaBrain.Foundation.Selection DbaBrain.Foundation.Text
  DbaBrain.Lib.Coerce

/-! ## The policy -/

structure Override where
  databaseName : String
  maxAgeHours : Option ℚ
  required : Bool

structure Policy where
  maxAgeHours : Option ℚ
  overrides : List Override

/-- The interpreter's `lower` and `upper`, and `datetime.fromisoformat`. -/
structure Reader where
  lower : String → String
  upper : String → String
  fromIsoFormat : String → Option IsoReading

def defaultMaxAgeHours : ℚ := 24 * 7

/-- `value or default`, of a number. -/
def orElse (value : Option ℚ) (default : ℚ) : ℚ := if value.getD 0 = 0 then default else value.getD 0

section Evaluate

variable (reader : Reader) (policy : Policy) (overrideHours : Option ℚ) (now : Instant)

def overrideFor (database : String) : Option Override :=
  policy.overrides.find? fun entry =>
    let wanted := reader.lower (strip entry.databaseName)
    wanted ≠ "" && wanted = reader.lower (strip database)

def maxAgeHours (database : String) : ℚ :=
  match overrideHours with
  | some hours => hours
  | none =>
      let hours := orElse policy.maxAgeHours defaultMaxAgeHours
      match overrideFor reader policy database with
      | none => hours
      | some entry => orElse entry.maxAgeHours hours

def isDrilled (database : String) : Bool := ((overrideFor reader policy database).map Override.required).getD true

/-! ## The rows -/

/-- A row of `backup_restore_history`, as `drill_rows` reads it. -/
structure Row where
  databaseName : String
  status : String
  restoreStart : Option String

structure Entry where
  success : Option Instant
  attempt : Option Instant
  attemptStatus : String

def Entry.blank : Entry := ⟨none, none, ""⟩

/-- When a row's attempt started, and its status. -/
abbrev Attempt := Instant × String

def Entry.noteAttempt (entry : Entry) (attempt : Attempt) : Entry :=
  if entry.attempt.all fun newest => newest < attempt.1 then
    { entry with attempt := some attempt.1, attemptStatus := attempt.2 }
  else entry

def Entry.noteSuccess (entry : Entry) (attempt : Attempt) : Entry :=
  if attempt.2 = "SUCCESS" ∧ (entry.success.all fun newest => newest < attempt.1) = true then
    { entry with success := some attempt.1 }
  else entry

def Entry.note (entry : Entry) (attempt : Attempt) : Entry := (entry.noteAttempt attempt).noteSuccess attempt

def Row.attempt? (row : Row) : Option Attempt :=
  (asUtcDatetime reader.fromIsoFormat row.restoreStart).map fun started => (started, reader.upper (strip row.status))

/-- The loop of `evaluate`. -/
def noteRow (latest : Dict String Entry) (row : Row) : Dict String Entry :=
  let database := strip row.databaseName
  match row.attempt? reader with
  | none => latest
  | some attempt =>
      if database = "" ∨ isDrilled reader policy database = false then latest
      else latest.set database (((latest.get? database).getD .blank).note attempt)

def latestOf (rows : List Row) : Dict String Entry := rows.foldl (noteRow reader policy) .empty

/-! ## The verdicts -/

inductive Status
  | critical
  | warning
  | ok
  deriving DecidableEq

def Status.rank : Status → ℕ
  | .critical => 0
  | .warning => 1
  | .ok => 2

/-- The reason a verdict gives, with the numbers in its text. -/
inductive Reason
  | neverProven
  | tooOld (ageHours limit : ℚ)
  | proven (ageHours limit : ℚ)
  | lastFailed (attempt : Instant) (ageHours : ℚ)

/-- The text of a reason; `number`, `whole` and `display` print a float, a float with `:.0f`, and an instant. -/
def Reason.text (number whole : ℚ → String) (display : Instant → String) : Reason → String
  | .neverProven => "no successful restore drill has ever been recorded"
  | .tooOld ageHours limit =>
      "newest successful drill is " ++ number ageHours ++ "h old, over the " ++ whole limit ++ "h policy"
  | .proven ageHours limit => "proven " ++ number ageHours ++ "h ago, within the " ++ whole limit ++ "h policy"
  | .lastFailed attempt ageHours =>
      "the most recent attempt FAILED (" ++ display attempt ++ "); the last success before it was " ++
        number ageHours ++ "h ago"

structure Verdict where
  databaseName : String
  status : Status
  ageHours : Option ℚ
  maxAgeHours : ℚ
  lastSuccess : Option Instant
  lastAttempt : Option Instant
  lastAttemptStatus : String
  reason : Reason

/-- `round(hours, 1)`. -/
def roundTenth (hours : ℚ) : ℚ := double (nearest (10 * hours) / 10)

/-- `round((now - success).total_seconds() / 3600.0, 1)`. -/
def ageHours (success : Instant) : ℚ := roundTenth (double (double ((now - success : ℤ) / 1000000) / 3600))

/-- A success as old as this, before the attempts after it are asked for. -/
def graded (age limit : ℚ) : Status × Reason :=
  if limit < age then (if age ≤ double (limit * 2) then .warning else .critical, .tooOld age limit)
  else (.ok, .proven age limit)

/-- The most recent attempt is a failed one after the success. -/
def Entry.lastFailed (entry : Entry) (success : Instant) : Option Instant :=
  entry.attempt.filter fun attempt => success < attempt && entry.attemptStatus = "FAILED"

def statusAndReason (limit : ℚ) (entry : Entry) : Status × Reason :=
  match entry.success with
  | none => (.critical, .neverProven)
  | some success =>
      match entry.lastFailed success with
      | some attempt => (.critical, .lastFailed attempt (ageHours now success))
      | none => graded (ageHours now success) limit

def verdictOf (database : String) (entry : Entry) : Verdict :=
  let limit := maxAgeHours reader policy overrideHours database
  let given := statusAndReason now limit entry
  { databaseName := database
    status := given.1
    ageHours := entry.success.map (ageHours now)
    maxAgeHours := limit
    lastSuccess := entry.success
    lastAttempt := entry.attempt
    lastAttemptStatus := entry.attemptStatus
    reason := given.2 }

/-- Worst first. -/
def Verdict.place (verdict : Verdict) : ℕ ×ₗ ℚ := toLex (verdict.status.rank, -verdict.ageHours.getD 0)

def evaluate (rows : List Row) : List Verdict :=
  sortedBy Verdict.place ((latestOf reader policy rows).entries.map fun entry =>
    verdictOf reader policy overrideHours now entry.1 entry.2)

end Evaluate

/-! ## What an entry tells -/

section Entries

variable {attempts others : List Attempt} {entry : Entry} {attempt : Attempt} {newest success : Instant}

/-- No attempt started later. -/
def IsLast (attempts : List Attempt) (newest : Instant) : Prop := ∀ attempt ∈ attempts, attempt.1 ≤ newest

/-- The newest success started here. -/
def IsNewestSuccess (attempts : List Attempt) (success : Instant) : Prop :=
  (success, "SUCCESS") ∈ attempts ∧ ∀ other, (other, "SUCCESS") ∈ attempts → other ≤ success

structure Tells (attempts : List Attempt) (entry : Entry) : Prop where
  attempt : ∃ newest, entry.attempt = some newest ∧ (newest, entry.attemptStatus) ∈ attempts ∧ IsLast attempts newest
  success : match entry.success with
    | none => ∀ start, (start, "SUCCESS") ∉ attempts
    | some success => IsNewestSuccess attempts success

theorem noteSuccess_attempt : (entry.noteSuccess attempt).attempt = entry.attempt ∧
    (entry.noteSuccess attempt).attemptStatus = entry.attemptStatus := by
  unfold Entry.noteSuccess
  split <;> exact ⟨rfl, rfl⟩

theorem note_attempt_of_later (later : entry.attempt.all fun newest => newest < attempt.1) :
    (entry.note attempt).attempt = some attempt.1 ∧ (entry.note attempt).attemptStatus = attempt.2 := by
  rw [Entry.note, noteSuccess_attempt.1, noteSuccess_attempt.2, Entry.noteAttempt, if_pos later]
  exact ⟨rfl, rfl⟩

theorem note_attempt_of_not_later (held : entry.attempt = some newest) (not_later : attempt.1 ≤ newest) :
    (entry.note attempt).attempt = some newest ∧ (entry.note attempt).attemptStatus = entry.attemptStatus := by
  rw [Entry.note, noteSuccess_attempt.1, noteSuccess_attempt.2, Entry.noteAttempt,
    if_neg (by simpa [held] using not_later)]
  exact ⟨held, rfl⟩

theorem note_success : (entry.note attempt).success =
    if attempt.2 = "SUCCESS" ∧ (entry.success.all fun newest => newest < attempt.1) = true then some attempt.1
    else entry.success := by
  have kept : (entry.noteAttempt attempt).success = entry.success := by
    unfold Entry.noteAttempt
    split <;> rfl
  rw [Entry.note, Entry.noteSuccess, kept]
  split
  · rfl
  · exact kept

theorem tells_note (known : attempts = [] ∧ entry = .blank ∨ Tells attempts entry) :
    Tells (attempts ++ [attempt]) (entry.note attempt) := by
  constructor
  · rcases known with ⟨rfl, rfl⟩ | ⟨⟨newest, held, member, last⟩, _⟩
    · obtain ⟨started, status⟩ := @note_attempt_of_later .blank attempt rfl
      refine ⟨attempt.1, started, status ▸ List.mem_singleton_self _, ?_⟩
      rintro other (_ | ⟨_, ⟨⟩⟩)
      exact le_rfl
    · by_cases later : newest < attempt.1
      · obtain ⟨started, status⟩ := @note_attempt_of_later entry attempt (by simp [held, later])
        refine ⟨attempt.1, started, ?_, fun other there => ?_⟩
        · rw [status]
          exact List.mem_append_right _ (List.mem_singleton_self _)
        · rcases List.mem_append.mp there with before | same
          · exact (last other before).trans later.le
          · rw [List.mem_singleton.mp same]
      · obtain ⟨started, status⟩ := note_attempt_of_not_later held (not_lt.mp later)
        refine ⟨newest, started, ?_, fun other there => ?_⟩
        · rw [status]
          exact List.mem_append_left _ member
        · rcases List.mem_append.mp there with before | same
          · exact last other before
          · rw [List.mem_singleton.mp same]
            exact not_lt.mp later
  · have before : match entry.success with
        | none => ∀ start, (start, "SUCCESS") ∉ attempts
        | some success => IsNewestSuccess attempts success := by
      rcases known with ⟨rfl, rfl⟩ | known
      · exact fun _ => List.not_mem_nil
      · exact known.success
    rw [note_success]
    obtain ⟨start, status⟩ := attempt
    by_cases succeeded : status = "SUCCESS"
    · subst succeeded
      cases held : entry.success with
      | none =>
        rw [held] at before
        rw [if_pos ⟨rfl, rfl⟩]
        refine ⟨List.mem_append_right _ (List.mem_singleton_self _), fun other there => ?_⟩
        rcases List.mem_append.mp there with earlier | same
        · exact absurd earlier (before other)
        · exact (Prod.mk.inj (List.mem_singleton.mp same)).1.le
      | some success =>
        rw [held] at before
        by_cases later : success < start
        · rw [if_pos ⟨rfl, by simpa using later⟩]
          refine ⟨List.mem_append_right _ (List.mem_singleton_self _), fun other there => ?_⟩
          rcases List.mem_append.mp there with earlier | same
          · exact (before.2 other earlier).trans later.le
          · exact (Prod.mk.inj (List.mem_singleton.mp same)).1.le
        · rw [if_neg (by simpa using later)]
          refine ⟨List.mem_append_left _ before.1, fun other there => ?_⟩
          rcases List.mem_append.mp there with earlier | same
          · exact before.2 other earlier
          · rw [(Prod.mk.inj (List.mem_singleton.mp same)).1]
            exact not_lt.mp later
    · rw [if_neg fun both => succeeded both.1]
      have same : ∀ other, (other, "SUCCESS") ∈ attempts ++ [(start, status)] ↔ (other, "SUCCESS") ∈ attempts := by
        intro other
        simp [Ne.symm succeeded]
      simp only [IsNewestSuccess, same]
      exact before

theorem tells_foldl (some_attempt : attempts ≠ []) : Tells attempts (attempts.foldl Entry.note .blank) := by
  induction attempts using List.reverseRecOn with
  | nil => exact absurd rfl some_attempt
  | append_singleton attempts attempt ih =>
    rw [List.foldl_append, List.foldl_cons, List.foldl_nil]
    refine tells_note ?_
    by_cases first : attempts = []
    · exact .inl ⟨first, by rw [first]; rfl⟩
    · exact .inr (ih first)

/-- The first of the last attempts is the one that is held. -/
theorem attemptStatus_foldl (last : IsLast others attempt.1) :
    ((attempt :: others).foldl Entry.note .blank).attemptStatus = attempt.2 := by
  have kept : ∀ (rest : List Attempt) (entry : Entry), entry.attempt = some attempt.1 → IsLast rest attempt.1 →
      (rest.foldl Entry.note entry).attemptStatus = entry.attemptStatus := by
    intro rest
    induction rest with
    | nil => exact fun _ _ _ => rfl
    | cons other rest ih =>
      intro entry held last
      obtain ⟨started, status⟩ := note_attempt_of_not_later held (last other List.mem_cons_self)
      rw [List.foldl_cons, ih _ started fun later there => last later (List.mem_cons_of_mem _ there), status]
  obtain ⟨started, status⟩ := @note_attempt_of_later .blank attempt rfl
  rw [List.foldl_cons, kept others _ started last, status]

end Entries

/-! ## One database's verdict -/

section Verdicts

variable {attempts others : List Attempt} {entry other : Entry} {now success : Instant} {limit : ℚ}

/-- The newest finished attempt is a success within the limit, one that failed at the same moment counting as newer. -/
def Proven (now : Instant) (limit : ℚ) (attempts : List Attempt) : Prop :=
  ∃ success, IsNewestSuccess attempts success ∧ (∀ failed, (failed, "FAILED") ∈ attempts → failed < success) ∧
    ((now - success : ℤ) : ℚ) / 1000000 / 3600 ≤ limit

/-- What attempts are judged rightly by: those that started last have one status, an age no failure is newer than is not
rounded across the limit, and a failure at or after the newest success is the last attempt or the success is too old
by itself. -/
structure Sound (now : Instant) (limit : ℚ) (attempts : List Attempt) : Prop where
  unmixed : ∀ newest one two, IsLast attempts newest → (newest, one) ∈ attempts → (newest, two) ∈ attempts → one = two
  rounded : ∀ success, IsNewestSuccess attempts success → (∀ failed, (failed, "FAILED") ∈ attempts → failed < success) →
    (ageHours now success ≤ limit ↔ ((now - success : ℤ) : ℚ) / 1000000 / 3600 ≤ limit)
  shown : ∀ success, IsNewestSuccess attempts success → ∀ failed, (failed, "FAILED") ∈ attempts → success ≤ failed →
    limit < ageHours now success ∨ ∃ newest, success < newest ∧ IsLast attempts newest ∧ (newest, "FAILED") ∈ attempts

theorem lastFailed_eq_some {newest : Instant} : entry.lastFailed success = some newest ↔
    entry.attempt = some newest ∧ success < newest ∧ entry.attemptStatus = "FAILED" := by
  rw [Entry.lastFailed, Option.filter_eq_some_iff]
  simp

theorem isNewestSuccess_unique {first second : Instant} (one : IsNewestSuccess attempts first)
    (two : IsNewestSuccess attempts second) : first = second :=
  le_antisymm (two.2 first one.1) (one.2 second two.1)

theorem Tells.success_eq (tells : Tells attempts entry) (newest : IsNewestSuccess attempts success) :
    entry.success = some success := by
  have held := tells.success
  cases found : entry.success with
  | none =>
    rw [found] at held
    exact absurd newest.1 (held success)
  | some known =>
    rw [found] at held
    rw [isNewestSuccess_unique held newest]

/-- Where the last attempts are not mixed, the held one is failed exactly when one of them is. -/
theorem lastFailed_iff (tells : Tells attempts entry) (sound : Sound now limit attempts) {newest : Instant} :
    entry.lastFailed success = some newest ↔
      success < newest ∧ IsLast attempts newest ∧ (newest, "FAILED") ∈ attempts := by
  obtain ⟨held_start, held, member, last⟩ := tells.attempt
  rw [lastFailed_eq_some, held, Option.some_inj]
  constructor
  · rintro ⟨rfl, later, failed⟩
    exact ⟨later, last, failed ▸ member⟩
  · rintro ⟨later, also_last, failed⟩
    have same : held_start = newest := le_antisymm (also_last _ member) (last _ failed)
    subst same
    exact ⟨rfl, later, sound.unmixed held_start _ _ last member failed⟩

theorem graded_ok_iff {age : ℚ} : (graded age limit).1 = .ok ↔ age ≤ limit := by
  unfold graded
  split
  · next older =>
      refine ⟨fun is_ok => ?_, fun within => absurd older (not_lt.mpr within)⟩
      dsimp only at is_ok
      split at is_ok <;> cases is_ok
  · next within => exact ⟨fun _ => not_lt.mp within, fun _ => rfl⟩

theorem ok_iff (found : entry.success = some success) :
    (statusAndReason now limit entry).1 = .ok ↔ entry.lastFailed success = none ∧ ageHours now success ≤ limit := by
  rw [statusAndReason, found]
  dsimp only
  cases entry.lastFailed success with
  | none => simpa using graded_ok_iff
  | some attempt => simp

/-- Attempts that are judged rightly are answered ok exactly when they prove the restore. -/
theorem ok_iff_proven (tells : Tells attempts entry) (sound : Sound now limit attempts) :
    (statusAndReason now limit entry).1 = .ok ↔ Proven now limit attempts := by
  have held := tells.success
  cases found : entry.success with
  | none =>
    rw [found] at held
    refine ⟨fun is_ok => ?_, fun ⟨success, newest, _⟩ => absurd newest.1 (held success)⟩
    rw [statusAndReason, found] at is_ok
    cases is_ok
  | some success =>
    rw [found] at held
    rw [ok_iff found]
    constructor
    · rintro ⟨unfailed, within⟩
      have earlier : ∀ failed, (failed, "FAILED") ∈ attempts → failed < success := by
        intro failed member
        by_contra later
        rcases sound.shown success held failed member (not_lt.mp later) with older | ⟨newest, last⟩
        · exact absurd within (not_le.mpr older)
        · rw [(lastFailed_iff tells sound).mpr last] at unfailed
          cases unfailed
      exact ⟨success, held, earlier, (sound.rounded success held earlier).mp within⟩
    · rintro ⟨proven, newest, earlier, within⟩
      obtain rfl := isNewestSuccess_unique newest held
      refine ⟨?_, (sound.rounded proven held earlier).mpr within⟩
      cases failing : entry.lastFailed proven with
      | none => rfl
      | some attempt =>
        obtain ⟨later, _, failed⟩ := (lastFailed_iff tells sound).mp failing
        exact absurd later (earlier attempt failed).le.not_gt

theorem Tells.perm (tells : Tells others entry) (same : others.Perm attempts) : Tells attempts entry := by
  obtain ⟨newest, held, member, last⟩ := tells.attempt
  refine ⟨⟨newest, held, same.mem_iff.mp member, fun attempt there => last attempt (same.mem_iff.mpr there)⟩, ?_⟩
  have success := tells.success
  simp only [IsNewestSuccess, same.mem_iff] at success ⊢
  exact success

theorem Tells.unique (tells : Tells attempts entry) (also_tells : Tells attempts other)
    (unmixed : ∀ newest one two, IsLast attempts newest → (newest, one) ∈ attempts → (newest, two) ∈ attempts →
      one = two) : other = entry := by
  obtain ⟨start, held, member, last⟩ := tells.attempt
  obtain ⟨other_start, other_held, other_member, other_last⟩ := also_tells.attempt
  have same_start : other_start = start := le_antisymm (last _ other_member) (other_last _ member)
  subst same_start
  have same_status := unmixed other_start _ _ last other_member member
  have same_success : other.success = entry.success := by
    have success := tells.success
    have other_success := also_tells.success
    cases found : entry.success with
    | none =>
      rw [found] at success
      cases there : other.success with
      | none => rfl
      | some start =>
        rw [there] at other_success
        exact absurd other_success.1 (success start)
    | some start =>
      rw [found] at success
      exact also_tells.success_eq success
  cases entry
  cases other
  simp_all

/-- What is answered ok in one order exactly when it is proven, and held alike in every order, is judged rightly. -/
theorem sound_of_answers (some_attempt : attempts ≠ [])
    (proven : (statusAndReason now limit (attempts.foldl Entry.note .blank)).1 = .ok ↔ Proven now limit attempts)
    (alike : ∀ others : List Attempt, others.Perm attempts →
      (others.foldl Entry.note .blank).attemptStatus = (attempts.foldl Entry.note .blank).attemptStatus) :
    Sound now limit attempts := by
  have tells := tells_foldl some_attempt
  -- an attempt that started last is held when its row comes first
  have first : ∀ newest status, IsLast attempts newest → (newest, status) ∈ attempts →
      status = (attempts.foldl Entry.note .blank).attemptStatus := by
    intro newest status last member
    rw [← alike _ (List.perm_cons_erase member).symm]
    have others_last : IsLast (attempts.erase (newest, status)) newest := fun other inside =>
      last other (List.mem_of_mem_erase inside)
    exact (@attemptStatus_foldl _ (newest, status) others_last).symm
  obtain ⟨newest, held, member, last⟩ := tells.attempt
  -- a failure that is held is an attempt that failed last
  have passes : ∀ success, ¬(success < newest ∧ (newest, "FAILED") ∈ attempts) →
      (attempts.foldl Entry.note .blank).lastFailed success = none := by
    intro success not_failed
    cases failing : (attempts.foldl Entry.note .blank).lastFailed success with
    | none => rfl
    | some attempt =>
      obtain ⟨same, after, status⟩ := lastFailed_eq_some.mp failing
      obtain rfl := Option.some.inj (held.symm.trans same)
      exact absurd ⟨after, status ▸ member⟩ not_failed
  refine ⟨fun start one two last one_there two_there => ?_, fun success newest_success earlier => ?_,
    fun success newest_success failed failing later => ?_⟩
  · exact (first start one last one_there).trans (first start two last two_there).symm
  · rw [ok_iff (tells.success_eq newest_success),
      and_iff_right (passes success fun ⟨after, failed⟩ => absurd after (earlier newest failed).le.not_gt)] at proven
    rw [proven]
    constructor
    · rintro ⟨one, newest_one, _, within⟩
      rwa [isNewestSuccess_unique newest_success newest_one]
    · exact fun within => ⟨success, newest_success, earlier, within⟩
  · by_contra hidden
    rw [not_or, not_lt] at hidden
    rw [ok_iff (tells.success_eq newest_success)] at proven
    obtain ⟨one, newest_one, earlier, _⟩ :=
      proven.mp ⟨passes success fun ⟨after, failed⟩ => hidden.2 ⟨newest, after, last, failed⟩, hidden.1⟩
    have before := earlier failed failing
    rw [isNewestSuccess_unique newest_one newest_success] at before
    exact absurd before (not_lt.mpr later)

end Verdicts

/-! ## Every database of a history -/

section Histories

variable {reader : Reader} {policy : Policy} {overrideHours : Option ℚ} {now : Instant} {rows : List Row}
  {database : String}

def attemptsOf (reader : Reader) (rows : List Row) (database : String) : List Attempt :=
  rows.filterMap fun row => if strip row.databaseName = database then row.attempt? reader else none

def Judged (reader : Reader) (policy : Policy) (database : String) : Prop :=
  database ≠ "" ∧ isDrilled reader policy database = true

theorem attemptsOf_cons (row : Row) : attemptsOf reader (row :: rows) database =
    ((if strip row.databaseName = database then row.attempt? reader else none).toList) ++
      attemptsOf reader rows database := by
  rw [attemptsOf, List.filterMap_cons]
  cases found : if strip row.databaseName = database then row.attempt? reader else none with
  | none => rfl
  | some attempt => rfl

/-- Rows can be brought into an order that has their attempts in a given one. -/
theorem exists_perm_attemptsOf {attempts : List Attempt} (same : attempts.Perm (attemptsOf reader rows database)) :
    ∃ ordered : List Row, ordered.Perm rows ∧ attemptsOf reader ordered database = attempts := by
  induction rows generalizing attempts with
  | nil => exact ⟨[], .nil, (List.perm_nil.mp same).symm⟩
  | cons row rest ih =>
    rw [attemptsOf_cons] at same
    cases read : if strip row.databaseName = database then row.attempt? reader else none with
    | none =>
      rw [read] at same
      obtain ⟨ordered, perm, rfl⟩ := ih same
      refine ⟨row :: ordered, perm.cons row, ?_⟩
      rw [attemptsOf_cons, read]
      rfl
    | some attempt =>
      rw [read] at same
      obtain ⟨before, after, rfl⟩ := List.append_of_mem (same.mem_iff.mpr List.mem_cons_self)
      obtain ⟨ordered, perm, parts⟩ := ih (List.perm_cons attempt |>.mp (List.perm_middle.symm.trans same))
      obtain ⟨first, second, rfl, rfl, rfl⟩ := List.filterMap_eq_append_iff.mp parts
      refine ⟨first ++ row :: second, List.perm_middle.trans (perm.cons row), ?_⟩
      rw [attemptsOf, List.filterMap_append]
      congr 1
      exact List.filterMap_cons_some read

def judgedAttempt? (reader : Reader) (policy : Policy) (row : Row) : Option (String × Attempt) :=
  if strip row.databaseName = "" ∨ isDrilled reader policy (strip row.databaseName) = false then none
  else (row.attempt? reader).map (Prod.mk (strip row.databaseName))

theorem latestOf_eq : latestOf reader policy rows = (rows.filterMap (judgedAttempt? reader policy)).foldl
    (fun latest judged => latest.set judged.1 (((latest.get? judged.1).getD .blank).note judged.2)) .empty := by
  rw [latestOf, List.foldl_filterMap]
  congr 1
  funext latest row
  unfold noteRow judgedAttempt?
  by_cases skipped : strip row.databaseName = "" ∨ isDrilled reader policy (strip row.databaseName) = false
  · cases row.attempt? reader <;> simp only [skipped, if_true]
  · cases row.attempt? reader <;> simp only [skipped, if_false, Option.map_none, Option.map_some]

theorem attemptsOf_eq (judged : Judged reader policy database) : attemptsOf reader rows database =
    ((rows.filterMap (judgedAttempt? reader policy)).filter fun judged => judged.1 = database).map Prod.snd := by
  induction rows with
  | nil => rfl
  | cons row rest ih =>
    rw [attemptsOf_cons, ih, List.filterMap_cons]
    unfold judgedAttempt?
    by_cases own : strip row.databaseName = database
    · rw [if_pos own, own, if_neg (by simpa [Judged, not_or] using judged)]
      cases row.attempt? reader with
      | none => rfl
      | some attempt => simp
    · rw [if_neg own]
      split
      · rfl
      · next attempt found =>
          obtain ⟨_, found⟩ := Option.ite_none_left_eq_some.mp found
          obtain ⟨_, _, rfl⟩ := Option.map_eq_some_iff.mp found
          rw [List.filter_cons_of_neg (by simpa using own)]
          rfl

theorem get?_latestOf (judged : Judged reader policy database) :
    (latestOf reader policy rows).get? database = if attemptsOf reader rows database = [] then none
      else some ((attemptsOf reader rows database).foldl Entry.note .blank) := by
  have noted := fun (held : List (String × Attempt)) =>
    Dict.get?_foldl_set Prod.fst (fun (entry : Entry) (judged : String × Attempt) => entry.note judged.2) .blank held
  rw [latestOf_eq, noted, attemptsOf_eq judged]
  simp only [List.map_eq_nil_iff, List.foldl_map]

theorem mem_evaluate (judged : Judged reader policy database) {verdict : Verdict} :
    verdict ∈ evaluate reader policy overrideHours now rows ∧ verdict.databaseName = database ↔
      attemptsOf reader rows database ≠ [] ∧ verdict = verdictOf reader policy overrideHours now database
        ((attemptsOf reader rows database).foldl Entry.note .blank) := by
  have held : (latestOf reader policy rows).get? database = _ := get?_latestOf judged
  rw [evaluate, mem_sortedBy, List.mem_map]
  constructor
  · rintro ⟨⟨⟨name, entry⟩, member, rfl⟩, named⟩
    obtain rfl : name = database := named
    rw [Dict.get?_eq_some_iff.mpr member] at held
    split at held
    · cases held
    · next some_attempt =>
        rw [Option.some.inj held]
        exact ⟨some_attempt, rfl⟩
  · rintro ⟨some_attempt, rfl⟩
    rw [if_neg some_attempt] at held
    exact ⟨⟨_, Dict.get?_eq_some_iff.mp held, rfl⟩, rfl⟩

/-- In every order of the rows each database is answered ok exactly when its newest finished attempt is a success within
the limit, and gets the same verdict, exactly where its attempts are judged rightly. -/
theorem drill_newest_outcome_iff (reader : Reader) (policy : Policy) (overrideHours : Option ℚ) (now : Instant)
    (rows : List Row) :
    (∀ ordered, ordered.Perm rows → ∀ database, Judged reader policy database →
      ((∃ verdict ∈ evaluate reader policy overrideHours now ordered,
          verdict.databaseName = database ∧ verdict.status = .ok) ↔
        Proven now (maxAgeHours reader policy overrideHours database) (attemptsOf reader rows database)) ∧
      ∀ verdict, verdict.databaseName = database →
        (verdict ∈ evaluate reader policy overrideHours now ordered ↔
          verdict ∈ evaluate reader policy overrideHours now rows)) ↔
      ∀ database, Judged reader policy database →
        Sound now (maxAgeHours reader policy overrideHours database) (attemptsOf reader rows database) := by
  constructor
  · intro answers database judged
    by_cases nothing : attemptsOf reader rows database = []
    · rw [nothing]
      exact ⟨fun _ _ _ _ member => absurd member List.not_mem_nil, fun _ newest => absurd newest.1 List.not_mem_nil,
        fun _ newest => absurd newest.1 List.not_mem_nil⟩
    refine sound_of_answers nothing ?_ fun others same => ?_
    · rw [← (answers rows (.refl _) database judged).1]
      constructor
      · exact fun is_ok => ⟨_, ((mem_evaluate judged).mpr ⟨nothing, rfl⟩).1, rfl, is_ok⟩
      · rintro ⟨verdict, member, named, is_ok⟩
        obtain ⟨_, rfl⟩ := (mem_evaluate judged).mp ⟨member, named⟩
        exact is_ok
    · obtain ⟨ordered, perm, rfl⟩ := exists_perm_attemptsOf same
      have some_attempt : attemptsOf reader ordered database ≠ [] :=
        fun none_there => nothing (List.perm_nil.mp (none_there ▸ same.symm))
      have there := ((answers ordered perm database judged).2 _ rfl).mp
        ((mem_evaluate judged).mpr ⟨some_attempt, rfl⟩).1
      exact congrArg Verdict.lastAttemptStatus ((mem_evaluate judged).mp ⟨there, rfl⟩).2
  · intro sound ordered perm database judged
    have same : (attemptsOf reader ordered database).Perm (attemptsOf reader rows database) := perm.filterMap _
    have none_iff : attemptsOf reader ordered database = [] ↔ attemptsOf reader rows database = [] :=
      ⟨fun nothing => List.perm_nil.mp (nothing ▸ same.symm), fun nothing => List.perm_nil.mp (nothing ▸ same)⟩
    have alike : ∀ verdict : Verdict, verdict.databaseName = database →
        (verdict ∈ evaluate reader policy overrideHours now ordered ↔
          verdict ∈ evaluate reader policy overrideHours now rows) := by
      intro verdict named
      have answered : ∀ given : List Row, verdict ∈ evaluate reader policy overrideHours now given ∧
          verdict.databaseName = database ↔ attemptsOf reader given database ≠ [] ∧ verdict = verdictOf reader policy
            overrideHours now database ((attemptsOf reader given database).foldl Entry.note .blank) :=
        fun _ => mem_evaluate judged
      have here := answered ordered
      have there := answered rows
      rw [and_iff_left named] at here there
      rw [here, there, Ne, none_iff]
      refine and_congr_right fun some_attempt => ?_
      rw [(tells_foldl some_attempt).unique ((tells_foldl (mt none_iff.mp some_attempt)).perm same)
        (sound database judged).unmixed]
    refine ⟨?_, alike⟩
    by_cases nothing : attemptsOf reader rows database = []
    · constructor
      · rintro ⟨verdict, member, named, _⟩
        exact absurd (none_iff.mpr nothing) ((mem_evaluate judged).mp ⟨member, named⟩).1
      · rintro ⟨success, newest, _⟩
        exact absurd newest.1 (nothing ▸ List.not_mem_nil)
    · rw [← ok_iff_proven (tells_foldl nothing) (sound database judged)]
      constructor
      · rintro ⟨verdict, member, named, is_ok⟩
        obtain ⟨_, rfl⟩ := (mem_evaluate judged).mp ⟨(alike verdict named).mp member, named⟩
        exact is_ok
      · intro is_ok
        refine ⟨_, (alike (verdictOf reader policy overrideHours now database _) rfl).mpr ?_, rfl, is_ok⟩
        exact ((mem_evaluate judged).mpr ⟨nothing, rfl⟩).1

/-- A success, a failure after it, and a drill that is still running. -/
def overtaken : List Row :=
  [⟨"SALES", "RUNNING", some "2026-08-03T23:00:00Z"⟩, ⟨"SALES", "FAILED", some "2026-08-03T00:00:00Z"⟩,
    ⟨"SALES", "SUCCESS", some "2026-08-02T00:00:00Z"⟩]

def stampReader : Reader := ⟨asciiLower, id, readStamp⟩

/-- Midnight of the fourth of August 2026. -/
def midnight : Instant := (asUtcDatetime readStamp (some "2026-08-04T00:00:00Z")).getD 0

theorem running_hides_failure :
    (∃ verdict ∈ evaluate stampReader ⟨none, []⟩ none midnight overtaken,
        verdict.databaseName = "SALES" ∧ verdict.status = .ok) ∧
      ¬Proven midnight 168 (attemptsOf stampReader overtaken "SALES") := by
  constructor
  · have given : (evaluate stampReader ⟨none, []⟩ none midnight overtaken).any
        (fun verdict => verdict.databaseName = "SALES" && verdict.status = .ok) = true := by decide +kernel
    obtain ⟨verdict, member, both⟩ := List.any_eq_true.mp given
    exact ⟨verdict, member, by simpa using both⟩
  · rintro ⟨success, newest, earlier, _⟩
    have attempts : attemptsOf stampReader overtaken "SALES" =
        [(midnight - 3600000000, "RUNNING"), (midnight - 86400000000, "FAILED"),
          (midnight - 172800000000, "SUCCESS")] := by decide +kernel
    rw [attempts] at newest earlier
    have succeeded := newest.1
    have failed := earlier (midnight - 86400000000) (by simp)
    have start : success = midnight - 172800000000 := by simpa using succeeded
    rw [start] at failed
    exact absurd failed (by decide +kernel)

end Histories

end DbaBrain.Db.RestoreDrill
