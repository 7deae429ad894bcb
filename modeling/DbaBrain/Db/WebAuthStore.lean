import DbaBrain.Foundation.Table
import DbaBrain.Foundation.Text

/-!
# Web accounts, sessions and login attempts

The tables `web_users`, `web_sessions` and `web_login_attempts`, and what
`authenticate` reads and writes.  A stored stamp is the second its text names:
the store's texts order as their seconds do, and a moment is past a stamp when
its second is.  The columns an operator reads and no code does are left out.
-/

namespace DbaBrain.Db.WebAuthStore

open DbaBrain.Foundation

/-- Python's lower case, and the hashing of passwords and tokens of `web_auth`. -/
structure WebAuth where
  lower : String → String
  verifyPassword : String → String → Bool
  needsRehash : String → Bool
  /-- The encoding of a password under a salt. -/
  encode : String → String → String
  tokenFingerprint : String → String

structure User where
  webUserId : Nat
  username : String
  displayName : String
  passwordHash : String
  passwordRef : String
  mustChangePassword : Bool
  userLevel : Nat
  isActive : Bool
  failedLoginCount : Nat
  lockedUntil : Option Int
  lastLoginAt : Option Int
  deriving DecidableEq

inductive Reason
  | ok
  | noUser
  | badPassword
  | locked
  | ipThrottled
  deriving DecidableEq

structure Attempt where
  webUserId : Option Nat
  usernameTried : String
  succeeded : Bool
  reason : Reason
  clientIp : String
  userAgent : String
  attemptedAt : Int

structure Session where
  webSessionId : Nat
  webUserId : Nat
  tokenFingerprint : String
  csrfToken : String
  issuedAt : Int
  expiresAt : Int
  lastSeenAt : Int
  clientIp : String
  userAgent : String
  isActive : Bool

/-- `ux_web_users_active`. -/
def activeName (user : User) : Option String := if user.isActive then some user.username else none

abbrev Users := Table User.webUserId activeName

/-! ## Passwords and names -/

def WebAuth.normalizeUsername (auth : WebAuth) (value : String) : Option String :=
  let name := auth.lower (Text.strip value)
  if name = "" ∨ 64 < name.toList.length ∨ name.toList.any Text.isSpace then none else some name

/-- `hash_password`, which refuses a password of fewer than eight characters. -/
def WebAuth.hashPassword (auth : WebAuth) (salt password : String) : Option String :=
  if password.toList.length < 8 then none else some (auth.encode salt password)

def getUser (users : Users) (name : String) : Option User :=
  users.rows.find? fun user => user.username = name && user.isActive

theorem getUser_eq_some {users : Users} {name : String} {user : User} (found : getUser users name = some user) :
    users.lookup user.webUserId = some user ∧ user.username = name ∧ user.isActive = true := by
  have chosen := List.find?_some found
  simp only [Bool.and_eq_true, decide_eq_true_eq] at chosen
  exact ⟨Table.lookup_of_mem (List.mem_of_find?_eq_some found), chosen.1, chosen.2⟩

/-- A change of columns other than the account's key, name and state. -/
def rewrite (change : User → User) (webUserId : ∀ user, (change user).webUserId = user.webUserId)
    (username : ∀ user, (change user).username = user.username)
    (isActive : ∀ user, (change user).isActive = user.isActive) : Table.Amendment User.webUserId activeName where
  change := change
  keeps := webUserId
  shrinks user := Or.inr (by rw [activeName, activeName, username, isActive])

/-! ## The limits of `authenticate` -/

structure Settings where
  maxFailed : Int
  lockoutMinutes : Int
  maxFailedPerIp : Int

def Settings.window (settings : Settings) : Int := 60 * max 1 settings.lockoutMinutes

def failuresFrom (attempts : List Attempt) (clientIp : String) (since : Int) : Nat :=
  attempts.countP fun attempt => attempt.clientIp = clientIp && !attempt.succeeded &&
    attempt.reason ≠ .ipThrottled && since ≤ attempt.attemptedAt

def accountFailures (attempts : List Attempt) (webUserId : Nat) (since : Int) : Nat :=
  attempts.countP fun attempt => attempt.webUserId = some webUserId && attempt.reason = .badPassword &&
    since < attempt.attemptedAt

/-- The address has used its failures up. -/
def throttled (settings : Settings) (attempts : List Attempt) (ip : String) (since : Int) : Bool :=
  ip ≠ "" && 0 < settings.maxFailedPerIp && settings.maxFailedPerIp ≤ failuresFrom attempts ip since

def User.isLocked (user : User) (now : Int) : Bool := user.lockedUntil.any fun moment => now < moment

/-- From when a miss counts: the window, or the last success in it. -/
def User.countedSince (user : User) (since : Int) : Int := max since (user.lastLoginAt.getD since)

def registerFailure (settings : Settings) (failed : Nat) (now : Int) : Table.Amendment User.webUserId activeName :=
  rewrite (fun user => { user with
      failedLoginCount := failed
      lockedUntil := if 0 < settings.maxFailed ∧ settings.maxFailed ≤ failed then some (now + settings.window) else none })
    (fun _ => rfl) (fun _ => rfl) fun _ => rfl

/-- What a success writes. -/
def registerSuccess (rehashed : Option String) (now : Int) : Table.Amendment User.webUserId activeName :=
  rewrite (fun user => { user with
      passwordHash := rehashed.getD user.passwordHash
      failedLoginCount := 0
      lockedUntil := none
      lastLoginAt := some now })
    (fun _ => rfl) (fun _ => rfl) fun _ => rfl

/-- The hash a success stores in the place of one at an older cost, or the refusal to make it. -/
def WebAuth.rehash (auth : WebAuth) (salt password : String) (user : User) : Option (Option String) :=
  if auth.needsRehash user.passwordHash then (auth.hashPassword salt password).map some else some none

/-! ## One call after another -/

structure Store where
  users : Users
  attempts : List Attempt

structure Call where
  username : String
  password : String
  clientIp : String
  userAgent : String
  salt : String

/-- `str(client_ip or "")[:64]`. -/
def Call.ip (call : Call) : String := Text.take 64 call.clientIp

/-- The clock as a call reads it: for its window, at the comparison, for the account's row and for the attempt's. -/
structure Readings where
  window : Int
  compared : Int
  written : Int
  recorded : Int

inductive Answer
  | signedIn (user : Option User)
  | refused (reason : Reason)
  /-- The password to be hashed anew is too short. -/
  | webAuthError
  deriving DecidableEq

def Call.attempt (call : Call) (webUserId : Option Nat) (name : String) (reason : Reason) (now : Int) : Attempt where
  webUserId := webUserId
  usernameTried := Text.take 64 name
  succeeded := reason = .ok
  reason := reason
  clientIp := call.ip
  userAgent := Text.take 256 call.userAgent
  attemptedAt := now

def Store.record (store : Store) (attempt : Attempt) : Store := { store with attempts := store.attempts ++ [attempt] }

/-- A wrong password for an account that is not locked. -/
def miss (settings : Settings) (store : Store) (user : User) (since now : Int) : Store :=
  let failed := accountFailures store.attempts user.webUserId (user.countedSince since) + 1
  { store with users := store.users.amend user.webUserId (registerFailure settings failed now) }

def authenticate (auth : WebAuth) (settings : Settings) (store : Store) (call : Call) (clock : Readings) :
    Answer × Store :=
  match auth.normalizeUsername call.username with
  | none => (.refused .noUser, store)
  | some name =>
      let since := clock.window - settings.window
      if throttled settings store.attempts call.ip since then
        (.refused .ipThrottled, store.record (call.attempt none name .ipThrottled clock.recorded))
      else
        match getUser store.users name with
        | none => (.refused .noUser, store.record (call.attempt none name .noUser clock.recorded))
        | some user =>
            if user.isLocked clock.compared then
              (.refused .locked, store.record (call.attempt (some user.webUserId) name .locked clock.recorded))
            else if auth.verifyPassword call.password user.passwordHash = false then
              (.refused .badPassword, (miss settings store user since clock.written).record
                (call.attempt (some user.webUserId) name .badPassword clock.recorded))
            else
              match auth.rehash call.salt call.password user with
              | none => (.webAuthError, store)
              | some rehashed =>
                  let users := store.users.amend user.webUserId (registerSuccess rehashed clock.written)
                  (.signedIn (users.lookup user.webUserId), { store with users := users }.record
                    (call.attempt (some user.webUserId) name .ok clock.recorded))

end DbaBrain.Db.WebAuthStore
