import DbaBrain.Db.WebAuthStore

/-!
# How often a password can be guessed

Logins one after another, at any moments.  An address is held by the failures
its attempts record, an account by the misses recorded since its last success;
a call reads the clock several times, and what it records last may be stamped
later than what it compared or locked.
-/

namespace DbaBrain.Db.WebAuthStore

open DbaBrain.Foundation

/-- A call, and the seconds that pass before each of its readings of the clock. -/
structure Turn where
  call : Call
  toWindow : Nat
  toCompared : Nat
  toWritten : Nat
  toRecorded : Nat

def Turn.readings (turn : Turn) (clock : Int) : Readings where
  window := clock + turn.toWindow
  compared := clock + turn.toWindow + turn.toCompared
  written := clock + turn.toWindow + turn.toCompared + turn.toWritten
  recorded := clock + turn.toWindow + turn.toCompared + turn.toWritten + turn.toRecorded

/-- The store and the time. -/
structure World where
  store : Store
  clock : Int

/-- What a call to `authenticate` can do. -/
inductive Did (auth : WebAuth) (settings : Settings) (store : Store) (call : Call) (clock : Readings) :
    Answer → Store → Prop
  | unnamed (unnamed : auth.normalizeUsername call.username = none) :
      Did auth settings store call clock (.refused .noUser) store
  | throttled {name : String} (named : auth.normalizeUsername call.username = some name) :
      Did auth settings store call clock (.refused .ipThrottled)
        (store.record (call.attempt none name .ipThrottled clock.recorded))
  | unknown {name : String} (named : auth.normalizeUsername call.username = some name)
      (open_ : throttled settings store.attempts call.ip (clock.window - settings.window) = false) :
      Did auth settings store call clock (.refused .noUser)
        (store.record (call.attempt none name .noUser clock.recorded))
  | locked {name : String} {user : User} (named : auth.normalizeUsername call.username = some name)
      (open_ : throttled settings store.attempts call.ip (clock.window - settings.window) = false)
      (found : getUser store.users name = some user) (held : user.isLocked clock.compared = true) :
      Did auth settings store call clock (.refused .locked)
        (store.record (call.attempt (some user.webUserId) name .locked clock.recorded))
  | missed {name : String} {user : User} (named : auth.normalizeUsername call.username = some name)
      (open_ : throttled settings store.attempts call.ip (clock.window - settings.window) = false)
      (found : getUser store.users name = some user) (free : user.isLocked clock.compared = false) :
      Did auth settings store call clock (.refused .badPassword)
        ((miss settings store user (clock.window - settings.window) clock.written).record
          (call.attempt (some user.webUserId) name .badPassword clock.recorded))
  | weak : Did auth settings store call clock .webAuthError store
  | signed {name : String} {user : User} (rehashed : Option String)
      (named : auth.normalizeUsername call.username = some name)
      (found : getUser store.users name = some user) (free : user.isLocked clock.compared = false) :
      Did auth settings store call clock
        (.signedIn ((store.users.amend user.webUserId (registerSuccess rehashed clock.written)).lookup user.webUserId))
        (Store.record { store with
            users := store.users.amend user.webUserId (registerSuccess rehashed clock.written) }
          (call.attempt (some user.webUserId) name .ok clock.recorded))

theorem authenticate_did (auth : WebAuth) (settings : Settings) (store : Store) (call : Call) (clock : Readings) :
    Did auth settings store call clock (authenticate auth settings store call clock).1
      (authenticate auth settings store call clock).2 := by
  unfold authenticate
  split
  · rename_i unnamed
    exact .unnamed unnamed
  · rename_i name named
    dsimp only
    split
    · exact .throttled named
    · rename_i open_
      rw [Bool.not_eq_true] at open_
      split
      · exact .unknown named open_
      · rename_i user found
        split
        · rename_i held
          exact .locked named open_ found held
        · rename_i free
          rw [Bool.not_eq_true] at free
          split
          · exact .missed named open_ found free
          · split
            · exact .weak
            · rename_i rehashed _
              exact .signed rehashed named found free

section Turns

variable (auth : WebAuth) (settings : Settings)

def World.answer (world : World) (turn : Turn) : Answer :=
  (authenticate auth settings world.store turn.call (turn.readings world.clock)).1

def World.after (world : World) (turn : Turn) : World where
  store := (authenticate auth settings world.store turn.call (turn.readings world.clock)).2
  clock := (turn.readings world.clock).recorded

def World.afterAll (world : World) (turns : List Turn) : World := turns.foldl (World.after auth settings) world

def World.account (world : World) (turn : Turn) : Option User :=
  (auth.normalizeUsername turn.call.username).bind (getUser world.store.users)

variable {auth settings} {world : World} {turn : Turn}

theorem World.did (auth : WebAuth) (settings : Settings) (world : World) (turn : Turn) : Did auth settings world.store turn.call (turn.readings world.clock)
    (world.answer auth settings turn) (world.after auth settings turn).store :=
  authenticate_did auth settings world.store turn.call (turn.readings world.clock)

end Turns

/-! ## Addresses -/

section Addresses

variable (auth : WebAuth) (settings : Settings)

/-- The call was answered by a comparison that failed: not by its name, and not by the limit of its address. -/
def World.comparisonFailed (world : World) (turn : Turn) : Bool :=
  match auth.normalizeUsername turn.call.username, world.answer auth settings turn with
  | some _, .refused reason => reason ≠ .ipThrottled
  | _, _ => false

/-- The moments of an address's failed comparisons. -/
def failedComparisons (ip : String) : World → List Turn → List Int
  | _, [] => []
  | world, turn :: rest =>
      let later := failedComparisons ip (world.after auth settings turn) rest
      if turn.call.ip = ip ∧ world.comparisonFailed auth settings turn = true then
        (turn.readings world.clock).compared :: later
      else later

/-- In the lockout window that begins at `since`. -/
def within (since : Int) (moments : List Int) : Nat :=
  moments.countP fun moment => since ≤ moment && moment ≤ since + settings.window

variable {auth settings} {world : World} {turn : Turn}

theorem failuresFrom_append (attempts more : List Attempt) (ip : String) (since : Int) :
    failuresFrom (attempts ++ more) ip since = failuresFrom attempts ip since + failuresFrom more ip since :=
  List.countP_append

theorem failuresFrom_antitone (attempts : List Attempt) (ip : String) {since later : Int} (order : since ≤ later) :
    failuresFrom attempts ip later ≤ failuresFrom attempts ip since := by
  apply List.countP_mono_left
  intro attempt _
  simp only [Bool.and_eq_true, decide_eq_true_eq]
  rintro ⟨counted, stamped⟩
  exact ⟨counted, order.trans stamped⟩

/-- A call adds to the attempts. -/
theorem exists_attempts (auth : WebAuth) (settings : Settings) (world : World) (turn : Turn) :
    ∃ more, (world.after auth settings turn).store.attempts = world.store.attempts ++ more := by
  have did := World.did auth settings world turn
  generalize (world.after auth settings turn).store = after at did ⊢
  generalize world.answer auth settings turn = answer at did
  cases did with
  | unnamed | weak => exact ⟨[], (List.append_nil _).symm⟩
  | throttled | unknown | locked | missed | signed => exact ⟨_, rfl⟩

theorem failuresFrom_after (auth : WebAuth) (settings : Settings) (world : World) (turn : Turn) (ip : String) (since : Int) :
    failuresFrom world.store.attempts ip since ≤
      failuresFrom (world.after auth settings turn).store.attempts ip since := by
  obtain ⟨more, attempts⟩ := exists_attempts auth settings world turn
  rw [attempts, failuresFrom_append]
  exact Nat.le_add_right _ _

theorem failuresFrom_attempt {call : Call} {id : Option Nat} {name : String} {reason : Reason} {since now : Int}
    (failure : reason ≠ .ok) (counted : reason ≠ .ipThrottled) (stamped : since ≤ now) :
    failuresFrom [call.attempt id name reason now] call.ip since = 1 := by
  simp [failuresFrom, Call.attempt, failure, counted, stamped]

/-- A failed comparison was not refused for its address, and is recorded for it. -/
theorem of_comparisonFailed (failed : world.comparisonFailed auth settings turn = true) :
    throttled settings world.store.attempts turn.call.ip ((turn.readings world.clock).window - settings.window) = false ∧
      ∀ since ≤ (turn.readings world.clock).recorded,
        failuresFrom (world.after auth settings turn).store.attempts turn.call.ip since =
          failuresFrom world.store.attempts turn.call.ip since + 1 := by
  unfold World.comparisonFailed at failed
  have did := World.did auth settings world turn
  generalize (world.after auth settings turn).store = after at did ⊢
  generalize world.answer auth settings turn = answer at did failed
  cases did with
  | unnamed unnamed => simp [unnamed] at failed
  | throttled named => simp [named] at failed
  | unknown _ open_ | locked _ open_ =>
    refine ⟨open_, fun since stamped => ?_⟩
    rw [Store.record, failuresFrom_append, failuresFrom_attempt (by decide) (by decide) stamped]
  | missed _ open_ =>
    refine ⟨open_, fun since stamped => ?_⟩
    rw [Store.record, failuresFrom_append, failuresFrom_attempt (by decide) (by decide) stamped, miss]
  | weak => simp at failed
  | signed => simp at failed

theorem compared_le_recorded (turn : Turn) (clock : Int) : (turn.readings clock).compared ≤ (turn.readings clock).recorded := by
  simp only [Turn.readings]
  omega

theorem window_le_compared (turn : Turn) (clock : Int) : (turn.readings clock).window ≤ (turn.readings clock).compared := by
  simp only [Turn.readings]
  omega

/-- The failures recorded before, and the comparisons that fail after, stay below the limit together. -/
theorem within_failedComparisons_le (auth : WebAuth) {ip : String} (stated : ip ≠ "") (limited : 0 < settings.maxFailedPerIp) (since : Int)
    (world : World) (turns : List Turn) :
    within settings since (failedComparisons auth settings ip world turns) +
      min (failuresFrom world.store.attempts ip since) settings.maxFailedPerIp.toNat ≤ settings.maxFailedPerIp.toNat := by
  induction turns generalizing world with
  | nil =>
    rw [failedComparisons, within, List.countP_nil, Nat.zero_add]
    exact min_le_right _ _
  | cons turn rest ih =>
    have later := ih (world.after auth settings turn)
    have grows := failuresFrom_after auth settings world turn ip since
    rw [failedComparisons]
    split
    · rename_i failure
      obtain ⟨rfl, failed⟩ := failure
      rw [within, List.countP_cons]
      split
      · rename_i inside
        simp only [Bool.and_eq_true, decide_eq_true_eq] at inside
        obtain ⟨admitted, recorded⟩ := of_comparisonFailed failed
        have order := window_le_compared turn world.clock
        have early : (turn.readings world.clock).window - settings.window ≤ since := by omega
        have few := failuresFrom_antitone world.store.attempts turn.call.ip early
        have below : (failuresFrom world.store.attempts turn.call.ip
            ((turn.readings world.clock).window - settings.window) : Int) < settings.maxFailedPerIp := by
          simpa [throttled, stated, limited] using admitted
        have one := recorded since (inside.1.trans (compared_le_recorded turn world.clock))
        rw [one] at later
        unfold within at later
        omega
      · unfold within at later
        omega
    · omega

end Addresses

/-! ## Accounts -/

section Accounts

/-- A miss of the account. -/
def Attempt.missOf (id : Nat) (attempt : Attempt) : Bool :=
  attempt.webUserId = some id && attempt.reason = .badPassword

def missesOf (id : Nat) (attempts : List Attempt) : Nat := attempts.countP fun attempt => attempt.missOf id

def World.lockedUntil (world : World) (id : Nat) : Option Int := (world.store.users.lookup id).bind User.lockedUntil

variable (auth : WebAuth) (settings : Settings)

/-- The call is a miss of the account. -/
def World.Missed (world : World) (turn : Turn) (id : Nat) : Prop :=
  world.answer auth settings turn = .refused .badPassword ∧
    (world.account auth turn).map User.webUserId = some id

/-- The call is a miss that locks the account. -/
def World.Locks (world : World) (turn : Turn) (id : Nat) (until_ : Int) : Prop :=
  world.Missed auth settings turn id ∧ (world.after auth settings turn).lockedUntil id = some until_

def World.SignsIn (world : World) (turn : Turn) (id : Nat) : Prop :=
  (∃ user, world.answer auth settings turn = .signedIn user) ∧ (world.account auth turn).map User.webUserId = some id

/-- No attempt is stamped later than now. -/
def World.Settled (world : World) : Prop := ∀ attempt ∈ world.store.attempts, attempt.attemptedAt ≤ world.clock

variable {auth settings} {world : World} {turn : Turn} {id : Nat} {until_ : Int}

theorem clock_le_window (world : World) (turn : Turn) : world.clock ≤ (turn.readings world.clock).window := by
  simp only [Turn.readings]
  omega

theorem compared_le_written (turn : Turn) (clock : Int) : (turn.readings clock).compared ≤ (turn.readings clock).written := by
  simp only [Turn.readings]
  omega

theorem written_le_recorded (turn : Turn) (clock : Int) : (turn.readings clock).written ≤ (turn.readings clock).recorded := by
  simp only [Turn.readings]
  omega

theorem clock_le_after (world : World) (turn : Turn) : world.clock ≤ (world.after auth settings turn).clock :=
  (clock_le_window world turn).trans ((window_le_compared turn world.clock).trans (compared_le_recorded turn world.clock))

/-- What a call does to an account and to its misses. -/
inductive Touched (settings : Settings) (world : World) (turn : Turn) (id : Nat) (account : Option User) :
    Answer → Store → Prop
  /-- The account stays as it is, and no miss of it is recorded. -/
  | left {answer : Answer} {after : Store} {more : List Attempt}
      (other : account.map User.webUserId = some id → answer ≠ .refused .badPassword ∧ ∀ user, answer ≠ .signedIn user)
      (row : after.users.lookup id = world.store.users.lookup id)
      (attempts : after.attempts = world.store.attempts ++ more) (noMiss : missesOf id more = 0)
      (stamps : ∀ attempt ∈ more, attempt.attemptedAt = (turn.readings world.clock).recorded) :
      Touched settings world turn id account answer after
  | missed {after : Store} {user : User} {attempt : Attempt} (found : world.store.users.lookup id = some user)
      (free : user.isLocked (turn.readings world.clock).compared = false)
      (row : after.users.lookup id = some ((registerFailure settings (accountFailures world.store.attempts id
          (user.countedSince ((turn.readings world.clock).window - settings.window)) + 1)
          (turn.readings world.clock).written).change user))
      (attempts : after.attempts = world.store.attempts ++ [attempt]) (isMiss : attempt.missOf id = true)
      (stamp : attempt.attemptedAt = (turn.readings world.clock).recorded) :
      Touched settings world turn id account (.refused .badPassword) after
  | signed {after : Store} {user : User} {signed : Option User} {attempt : Attempt} (rehashed : Option String)
      (found : world.store.users.lookup id = some user)
      (free : user.isLocked (turn.readings world.clock).compared = false)
      (row : after.users.lookup id = some ((registerSuccess rehashed (turn.readings world.clock).written).change user))
      (attempts : after.attempts = world.store.attempts ++ [attempt]) (noMiss : attempt.missOf id = false)
      (stamp : attempt.attemptedAt = (turn.readings world.clock).recorded) :
      Touched settings world turn id account (.signedIn signed) after

theorem touched (auth : WebAuth) (settings : Settings) (world : World) (turn : Turn) (id : Nat) :
    Touched settings world turn id (world.account auth turn) (world.answer auth settings turn)
      (world.after auth settings turn).store := by
  have did := World.did auth settings world turn
  generalize (world.after auth settings turn).store = after at did ⊢
  generalize world.answer auth settings turn = answer at did ⊢
  unfold World.account
  cases did with
  | unnamed unnamed =>
    exact .left (by simp [unnamed]) rfl (List.append_nil _).symm rfl (by simp)
  | weak => exact .left (by simp) rfl (List.append_nil _).symm rfl (by simp)
  | throttled | unknown | locked =>
    refine .left (by simp) rfl rfl ?_ ?_
    · simp [missesOf, Attempt.missOf, Call.attempt]
    · simp [Call.attempt]
  | @missed name user named _ found free =>
    have row := (getUser_eq_some found).1
    by_cases same : user.webUserId = id
    · subst same
      refine .missed row free ?_ rfl ?_ rfl
      · simp only [Store.record, miss, Table.lookup_amend, row, Option.map_some, if_true]
      · simp [Attempt.missOf, Call.attempt]
    · refine .left (by simp [named, found, same]) ?_ rfl ?_ ?_
      · simp [Store.record, miss, Table.lookup_amend, Ne.symm same]
      · simp [missesOf, Attempt.missOf, Call.attempt, same]
      · simp [Call.attempt]
  | @signed name user rehashed named found free =>
    have row := (getUser_eq_some found).1
    by_cases same : user.webUserId = id
    · subst same
      refine .signed rehashed row free ?_ rfl ?_ rfl
      · simp only [Store.record, Table.lookup_amend, row, Option.map_some, if_true]
      · simp [Attempt.missOf, Call.attempt]
    · refine .left (by simp [named, found, same]) ?_ rfl ?_ ?_
      · simp [Store.record, Table.lookup_amend, Ne.symm same]
      · simp [missesOf, Attempt.missOf, Call.attempt]
      · simp [Call.attempt]

/-- What a lock rests on: the misses counted, this one with them. -/
structure LockedBy (settings : Settings) (world : World) (turn : Turn) (id : Nat) (until_ : Int) (after : Store) where
  user : User
  attempt : Attempt
  found : world.store.users.lookup id = some user
  free : user.isLocked (turn.readings world.clock).compared = false
  attempts : after.attempts = world.store.attempts ++ [attempt]
  isMiss : attempt.missOf id = true
  stamp : attempt.attemptedAt = (turn.readings world.clock).recorded
  enough : settings.maxFailed ≤ accountFailures world.store.attempts id
    (user.countedSince ((turn.readings world.clock).window - settings.window)) + 1
  held : until_ = (turn.readings world.clock).written + settings.window

theorem lockedBy_of_locks (locks : world.Locks auth settings turn id until_) :
    Nonempty (LockedBy settings world turn id until_ (world.after auth settings turn).store) := by
  obtain ⟨⟨refused, named⟩, lockedUntil⟩ := locks
  have moved := touched auth settings world turn id
  unfold World.lockedUntil at lockedUntil
  rw [refused] at moved
  generalize (world.after auth settings turn).store = after at moved lockedUntil ⊢
  cases moved with
  | left other => exact absurd rfl (other named).1
  | missed found free row attempts isMiss stamp =>
    rw [row, Option.bind_some] at lockedUntil
    obtain ⟨⟨_, enough⟩, held⟩ := Option.ite_none_right_eq_some.mp lockedUntil
    exact ⟨_, _, found, free, attempts, isMiss, stamp, by simpa using enough, (Option.some.inj held).symm⟩

theorem account_of_signsIn (signs : world.SignsIn auth settings turn id) :
    ∃ user attempt, (world.after auth settings turn).store.users.lookup id = some user ∧
      user.lastLoginAt = some (turn.readings world.clock).written ∧
      (world.after auth settings turn).store.attempts = world.store.attempts ++ [attempt] ∧ attempt.missOf id = false := by
  obtain ⟨⟨signed, answer⟩, named⟩ := signs
  have moved := touched auth settings world turn id
  rw [answer] at moved
  generalize (world.after auth settings turn).store = after at moved ⊢
  cases moved with
  | left other => exact absurd rfl ((other named).2 signed)
  | signed rehashed found free row attempts noMiss stamp => exact ⟨_, _, row, rfl, attempts, noMiss⟩

theorem accountFailures_eq (attempts : List Attempt) (id : Nat) (since : Int) :
    accountFailures attempts id since = attempts.countP fun attempt => attempt.missOf id && since < attempt.attemptedAt :=
  rfl

theorem accountFailures_le (attempts : List Attempt) (id : Nat) (since : Int) :
    accountFailures attempts id since ≤ missesOf id attempts := by
  apply List.countP_mono_left
  intro attempt _ counted
  exact (Bool.and_eq_true _ _ ▸ counted).1

/-- Misses stamped no later than `since` are not counted from there. -/
theorem accountFailures_append_le {old : List Attempt} (more : List Attempt) {since : Int}
    (early : ∀ attempt ∈ old, attempt.missOf id = true → attempt.attemptedAt ≤ since) :
    accountFailures (old ++ more) id since ≤ missesOf id more := by
  rw [accountFailures_eq, List.countP_append, ← accountFailures_eq, ← accountFailures_eq]
  have none : accountFailures old id since = 0 := by
    rw [accountFailures_eq, List.countP_eq_zero]
    intro attempt member
    rw [Bool.and_eq_true, decide_eq_true_eq]
    rintro ⟨isMiss, later⟩
    exact absurd later (not_lt.mpr (early attempt member isMiss))
  rw [none, Nat.zero_add]
  exact accountFailures_le more id since

/-! ### What a run keeps -/

theorem stamps_after (auth : WebAuth) (settings : Settings) (world : World) (turn : Turn) :
    ∃ more, (world.after auth settings turn).store.attempts = world.store.attempts ++ more ∧
      ∀ attempt ∈ more, attempt.attemptedAt = (turn.readings world.clock).recorded := by
  have moved := touched auth settings world turn 0
  generalize (world.after auth settings turn).store = after at moved ⊢
  generalize world.answer auth settings turn = answer at moved
  cases moved with
  | left _ _ attempts _ stamps => exact ⟨_, attempts, stamps⟩
  | missed _ _ _ attempts _ stamp => exact ⟨_, attempts, by simpa using stamp⟩
  | signed _ _ _ _ attempts _ stamp => exact ⟨_, attempts, by simpa using stamp⟩

theorem settled_after (settled : world.Settled) (turn : Turn) : (world.after auth settings turn).Settled := by
  obtain ⟨more, attempts, stamps⟩ := stamps_after auth settings world turn
  intro attempt member
  rw [attempts] at member
  rcases List.mem_append.mp member with old | new
  · exact (settled attempt old).trans (clock_le_after world turn)
  · exact (stamps attempt new).le

/-- The account has signed in at `signedAt`, and has no earlier success on its row. -/
structure SinceSuccess (first : World) (id : Nat) (signedAt : Int) (world : World) : Prop where
  clock : signedAt ≤ world.clock
  lastLogin : ∃ user last, world.store.users.lookup id = some user ∧ user.lastLoginAt = some last ∧ signedAt ≤ last
  attempts : ∃ more, world.store.attempts = first.store.attempts ++ more

/-- The account was locked until `held`: it still is, or that moment has passed, and no miss was made before it. -/
structure SinceLock (first : World) (id : Nat) (held : Int) (world : World) : Prop where
  lifted : held ≤ world.clock ∨ world.lockedUntil id = some held
  attempts : ∃ more, world.store.attempts = first.store.attempts ++ more ∧
    ∀ attempt ∈ more, attempt.missOf id = true → held ≤ attempt.attemptedAt

variable {first : World} {signedAt held : Int}

theorem SinceSuccess.after (since : SinceSuccess first id signedAt world) (turn : Turn) :
    SinceSuccess first id signedAt (world.after auth settings turn) := by
  obtain ⟨user, last, found, signed, early⟩ := since.lastLogin
  obtain ⟨old, attempts⟩ := since.attempts
  refine ⟨since.clock.trans (clock_le_after world turn), ?_, ?_⟩
  · have moved := touched auth settings world turn id
    generalize (world.after auth settings turn).store = after at moved ⊢
    generalize world.answer auth settings turn = answer at moved
    cases moved with
    | left _ row => exact ⟨user, last, row.trans found, signed, early⟩
    | missed found' _ row =>
      obtain rfl := Option.some.inj (found.symm.trans found')
      exact ⟨_, last, row, signed, early⟩
    | signed _ _ _ row =>
      have later : world.clock ≤ (turn.readings world.clock).written :=
        (clock_le_window world turn).trans
          ((window_le_compared turn world.clock).trans (compared_le_written turn world.clock))
      exact ⟨_, _, row, rfl, since.clock.trans later⟩
  · obtain ⟨more, attempts', _⟩ := stamps_after auth settings world turn
    exact ⟨old ++ more, by rw [attempts', attempts, List.append_assoc]⟩

/-- An account that is free was not held, or its lock has run out. -/
theorem held_le_compared {user : User} (since : SinceLock first id held world) (found : world.store.users.lookup id = some user)
    (free : user.isLocked (turn.readings world.clock).compared = false) :
    held ≤ (turn.readings world.clock).compared := by
  rcases since.lifted with passed | locked
  · exact passed.trans ((clock_le_window world turn).trans (window_le_compared turn world.clock))
  · rw [World.lockedUntil, found, Option.bind_some] at locked
    simpa [User.isLocked, locked] using free

theorem SinceLock.after (since : SinceLock first id held world) (turn : Turn) :
    SinceLock first id held (world.after auth settings turn) := by
  obtain ⟨old, attempts, stamps⟩ := since.attempts
  have moved := touched auth settings world turn id
  have late : held ≤ world.clock → held ≤ (world.after auth settings turn).clock :=
    fun passed => passed.trans (clock_le_after world turn)
  have clock : (world.after auth settings turn).clock = (turn.readings world.clock).recorded := rfl
  have ends := compared_le_recorded turn world.clock
  have append {more : List Attempt} (after : Store) (attempts' : after.attempts = world.store.attempts ++ more)
      (late : ∀ attempt ∈ more, attempt.missOf id = true → held ≤ attempt.attemptedAt) :
      ∃ more, after.attempts = first.store.attempts ++ more ∧
        ∀ attempt ∈ more, attempt.missOf id = true → held ≤ attempt.attemptedAt := by
    refine ⟨old ++ more, by rw [attempts', attempts, List.append_assoc], ?_⟩
    intro attempt member
    rcases List.mem_append.mp member with early | new
    · exact stamps attempt early
    · exact late attempt new
  generalize answered : world.answer auth settings turn = answer at moved
  generalize stored : (world.after auth settings turn).store = after at moved
  cases moved with
  | left _ row attempts' noMiss =>
    refine ⟨since.lifted.imp late ?_, ?_⟩
    · intro locked
      rw [World.lockedUntil, stored, row]
      exact locked
    · rw [stored]
      refine append after attempts' fun attempt member isMiss => ?_
      exact absurd isMiss (List.countP_eq_zero.mp noMiss attempt member)
  | missed found free _ attempts' _ stamp | signed _ found free _ attempts' _ stamp =>
    have passed := held_le_compared since found free
    refine ⟨Or.inl (clock ▸ passed.trans ends), ?_⟩
    rw [stored]
    refine append after attempts' fun other member _ => ?_
    rw [List.mem_singleton.mp member, stamp]
    exact passed.trans ends

/-- What every call keeps, a run keeps. -/
theorem afterAll_keeps (auth : WebAuth) (settings : Settings) (invariant : World → Prop)
    (kept : ∀ world turn, invariant world → invariant (World.after auth settings world turn)) (holds : invariant world)
    (turns : List Turn) : invariant (world.afterAll auth settings turns) := by
  induction turns generalizing world with
  | nil => exact holds
  | cons turn rest ih => exact ih (kept world turn holds)

theorem written_of_settled {attempt : Attempt} (settled : world.Settled) (member : attempt ∈ world.store.attempts) :
    attempt.attemptedAt ≤ (turn.readings world.clock).written := by
  have early := settled attempt member
  have order := clock_le_window world turn
  have order' := window_le_compared turn world.clock
  have order'' := compared_le_written turn world.clock
  omega

theorem signsIn_since (settled : world.Settled) (signs : world.SignsIn auth settings turn id) :
    SinceSuccess (world.after auth settings turn) id (turn.readings world.clock).written (world.after auth settings turn) ∧
      ∀ attempt ∈ (world.after auth settings turn).store.attempts, attempt.missOf id = true →
        attempt.attemptedAt ≤ (turn.readings world.clock).written := by
  obtain ⟨user, attempt, found, signed, attempts, noMiss⟩ := account_of_signsIn signs
  refine ⟨⟨written_le_recorded turn world.clock, ⟨user, _, found, signed, le_refl _⟩, [], (List.append_nil _).symm⟩, ?_⟩
  intro other member isMiss
  rw [attempts] at member
  rcases List.mem_append.mp member with old | new
  · exact written_of_settled settled old
  · rw [List.mem_singleton.mp new, noMiss] at isMiss
    cases isMiss

theorem locks_since (settled : world.Settled) (locks : world.Locks auth settings turn id held)
    (together : (turn.readings world.clock).recorded = (turn.readings world.clock).written) :
    SinceLock (world.after auth settings turn) id held (world.after auth settings turn) ∧
      ∀ attempt ∈ (world.after auth settings turn).store.attempts, attempt.missOf id = true →
        attempt.attemptedAt ≤ held - settings.window := by
  obtain ⟨lock⟩ := lockedBy_of_locks locks
  refine ⟨⟨Or.inr locks.2, [], (List.append_nil _).symm, by simp⟩, ?_⟩
  intro other member _
  rw [lock.attempts] at member
  have written : held - settings.window = (turn.readings world.clock).written := by
    rw [lock.held]
    omega
  rw [written]
  rcases List.mem_append.mp member with old | new
  · exact written_of_settled settled old
  · rw [List.mem_singleton.mp new, lock.stamp, together]

/-- Two calls of a run, with calls before the first and between them. -/
structure Stretch where
  before : List Turn
  first : Turn
  between : List Turn
  last : Turn

namespace Stretch

variable (auth settings) (stretch : Stretch) (start : World)

def atFirst : World := start.afterAll auth settings stretch.before

def fromFirst : World := (stretch.atFirst auth settings start).after auth settings stretch.first

def atLast : World := (stretch.fromFirst auth settings start).afterAll auth settings stretch.between

def past : World := (stretch.atLast auth settings start).after auth settings stretch.last

def recorded : List Attempt :=
  (stretch.past auth settings start).store.attempts.drop (stretch.fromFirst auth settings start).store.attempts.length

end Stretch

/-- No login yet: the time, and the accounts. -/
def World.start (users : Users) (clock : Int) : World := ⟨⟨users, []⟩, clock⟩

theorem settled_start (users : Users) (clock : Int) : (World.start users clock).Settled := by
  intro attempt member
  cases member

section Locked

variable {stretch : Stretch} {start : World}

/-- The misses a lock counts from `since` on were all recorded after the first call. -/
theorem maxFailed_le_missesOf {more : List Attempt} {since : Int}
    (lock : LockedBy settings (stretch.atLast auth settings start) stretch.last id until_ (stretch.past auth settings start).store)
    (attempts : (stretch.atLast auth settings start).store.attempts =
      (stretch.fromFirst auth settings start).store.attempts ++ more)
    (early : ∀ attempt ∈ (stretch.fromFirst auth settings start).store.attempts, attempt.missOf id = true →
      attempt.attemptedAt ≤ since)
    (late : since ≤ lock.user.countedSince
      ((stretch.last.readings (stretch.atLast auth settings start).clock).window - settings.window)) :
    stretch.recorded auth settings start = more ++ [lock.attempt] ∧
      settings.maxFailed ≤ missesOf id (stretch.recorded auth settings start) := by
  have recorded : stretch.recorded auth settings start = more ++ [lock.attempt] := by
    rw [Stretch.recorded, lock.attempts, attempts, List.append_assoc, List.drop_left]
  have enough := lock.enough
  rw [attempts] at enough
  have counted := accountFailures_append_le more fun attempt member isMiss => (early attempt member isMiss).trans late
  refine ⟨recorded, ?_⟩
  rw [recorded, missesOf, List.countP_append, List.countP_singleton, if_pos lock.isMiss]
  unfold missesOf at counted
  omega

theorem settled_atFirst (settled : start.Settled) : (stretch.atFirst auth settings start).Settled :=
  afterAll_keeps auth settings World.Settled (fun _ turn settled => settled_after settled turn) settled stretch.before

theorem locks_after_success (settled : start.Settled)
    (signs : (stretch.atFirst auth settings start).SignsIn auth settings stretch.first id)
    (locks : (stretch.atLast auth settings start).Locks auth settings stretch.last id until_) :
    settings.maxFailed ≤ missesOf id (stretch.recorded auth settings start) := by
  obtain ⟨since, early⟩ := signsIn_since (settled_atFirst settled) signs
  have since' := afterAll_keeps auth settings (SinceSuccess _ id _) (fun _ turn since => since.after turn) since stretch.between
  obtain ⟨lock⟩ := lockedBy_of_locks locks
  obtain ⟨user, last, found, signed, order⟩ := since'.lastLogin
  obtain ⟨more, attempts⟩ := since'.attempts
  obtain rfl := Option.some.inj (found.symm.trans lock.found)
  refine (maxFailed_le_missesOf lock attempts early ?_).2
  rw [User.countedSince, signed, Option.getD_some]
  exact order.trans (le_max_right _ _)

theorem locks_after_lock (settled : start.Settled)
    (locks : (stretch.atFirst auth settings start).Locks auth settings stretch.first id held)
    (together : (stretch.first.readings (stretch.atFirst auth settings start).clock).recorded =
      (stretch.first.readings (stretch.atFirst auth settings start).clock).written)
    (expired : held ≤ (stretch.last.readings (stretch.atLast auth settings start).clock).window)
    (again : (stretch.atLast auth settings start).Locks auth settings stretch.last id until_) :
    settings.maxFailed ≤ missesOf id (stretch.recorded auth settings start) ∧
      ∀ attempt ∈ stretch.recorded auth settings start, attempt.missOf id = true → held ≤ attempt.attemptedAt := by
  obtain ⟨since, early⟩ := locks_since (settled_atFirst settled) locks together
  have since' := afterAll_keeps auth settings (SinceLock _ id held) (fun _ turn since => since.after turn) since stretch.between
  obtain ⟨lock⟩ := lockedBy_of_locks again
  obtain ⟨more, attempts, stamps⟩ := since'.attempts
  have late : held - settings.window ≤ lock.user.countedSince
      ((stretch.last.readings (stretch.atLast auth settings start).clock).window - settings.window) :=
    (sub_le_sub_right expired _).trans (le_max_left _ _)
  obtain ⟨recorded, enough⟩ := maxFailed_le_missesOf lock attempts early late
  refine ⟨enough, ?_⟩
  rw [recorded]
  intro attempt member isMiss
  rcases List.mem_append.mp member with old | new
  · exact stamps attempt old isMiss
  · rw [List.mem_singleton.mp new, lock.stamp]
    exact (held_le_compared since' lock.found lock.free).trans (compared_le_recorded _ _)

theorem locks_after_start {users : Users} {clock : Int} {before : List Turn}
    (locks : ((World.start users clock).afterAll auth settings before).Locks auth settings turn id until_) :
    settings.maxFailed ≤ missesOf id
      (((World.start users clock).afterAll auth settings before).after auth settings turn).store.attempts := by
  obtain ⟨lock⟩ := lockedBy_of_locks locks
  have enough := lock.enough
  have counted := accountFailures_le ((World.start users clock).afterAll auth settings before).store.attempts id
    (lock.user.countedSince
      ((turn.readings ((World.start users clock).afterAll auth settings before).clock).window - settings.window))
  rw [lock.attempts, missesOf, List.countP_append, List.countP_singleton, if_pos lock.isMiss]
  unfold missesOf at counted
  omega

end Locked

/-- However calls follow one another, an address that is stated obtains no more failed comparisons in a
lockout window than its limit, where there is one; an account locks only after `maxFailed` misses, all of
them recorded since its last success; and once a lock has expired, a call that begins then locks again only
after `maxFailed` misses recorded since that expiry, so never by one where `maxFailed` is two or more.  The
last is said of a lock whose own miss is recorded in the second it is locked in. -/
theorem guessing_is_bounded (auth : WebAuth) (settings : Settings) (users : Users) (clock : Int) :
    (∀ turns ip since, ip ≠ "" → 0 < settings.maxFailedPerIp →
      (within settings since (failedComparisons auth settings ip (World.start users clock) turns) : Int) ≤
        settings.maxFailedPerIp) ∧
    (∀ before turn id until_,
      ((World.start users clock).afterAll auth settings before).Locks auth settings turn id until_ →
        settings.maxFailed ≤ missesOf id
          (((World.start users clock).afterAll auth settings before).after auth settings turn).store.attempts) ∧
    (∀ (stretch : Stretch) id until_,
      (stretch.atFirst auth settings (World.start users clock)).SignsIn auth settings stretch.first id →
      (stretch.atLast auth settings (World.start users clock)).Locks auth settings stretch.last id until_ →
        settings.maxFailed ≤ missesOf id (stretch.recorded auth settings (World.start users clock))) ∧
    (∀ (stretch : Stretch) id held until_,
      (stretch.atFirst auth settings (World.start users clock)).Locks auth settings stretch.first id held →
      (stretch.first.readings (stretch.atFirst auth settings (World.start users clock)).clock).recorded =
        (stretch.first.readings (stretch.atFirst auth settings (World.start users clock)).clock).written →
      held ≤ (stretch.last.readings (stretch.atLast auth settings (World.start users clock)).clock).window →
      (stretch.atLast auth settings (World.start users clock)).Locks auth settings stretch.last id until_ →
        settings.maxFailed ≤ missesOf id (stretch.recorded auth settings (World.start users clock)) ∧
        (∀ attempt ∈ stretch.recorded auth settings (World.start users clock), attempt.missOf id = true →
          held ≤ attempt.attemptedAt) ∧
        ¬ (2 ≤ settings.maxFailed ∧ missesOf id (stretch.recorded auth settings (World.start users clock)) = 1)) := by
  refine ⟨?_, ?_, ?_, ?_⟩
  · intro turns ip since stated limited
    have bounded := within_failedComparisons_le auth stated limited since (World.start users clock) turns
    omega
  · intro before turn id until_ locks
    exact locks_after_start locks
  · intro stretch id until_ signs locks
    exact locks_after_success (settled_start users clock) signs locks
  · intro stretch id held until_ locks together expired again
    obtain ⟨enough, late⟩ := locks_after_lock (settled_start users clock) locks together expired again
    refine ⟨enough, late, ?_⟩
    rintro ⟨several, one⟩
    omega

end Accounts

/-! ### An account that one miss locks -/

/-- Passwords and tokens kept as they are. -/
def plainAuth : WebAuth := ⟨id, fun password encoded => password = encoded, fun _ => false, fun _ password => password, id⟩

def oneUser : Users where
  rows := [⟨1, "thanh", "Thanh", "a-long-password", "", false, 50, true, 0, none, none⟩]
  keys_nodup := by simp
  index_nodup := by simp [activeName]

/-- A wrong password, some seconds after what came before. -/
def wrongPassword (seconds : Nat) : Turn := ⟨⟨"thanh", "guess", "10.0.0.9", "", ""⟩, seconds, 0, 0, 0⟩

instance (world : World) (turn : Turn) (id : Nat) (until_ : Int) :
    Decidable (world.Locks plainAuth ⟨1, 15, 5⟩ turn id until_) :=
  inferInstanceAs (Decidable ((_ = _ ∧ _ = _) ∧ _ = _))

/-- With `maxFailed` one, the first miss after a lock has expired locks the account again. -/
theorem one_miss_locks_again :
    (World.start oneUser 0).Locks plainAuth ⟨1, 15, 5⟩ (wrongPassword 0) 1 900 ∧
      ((World.start oneUser 0).after plainAuth ⟨1, 15, 5⟩ (wrongPassword 0)).Locks plainAuth ⟨1, 15, 5⟩
        (wrongPassword 900) 1 1800 := by
  decide +kernel

end DbaBrain.Db.WebAuthStore
