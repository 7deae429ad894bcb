import DbaBrain.Db.WebAuthStore
import DbaBrain.Foundation.Execution

/-!
# Sessions and the passwords they were opened with

The statements of logins, of `set_password` and `deactivate_user`, and of
`resolve_session`, in any order of any number of calls.  A login compares a
password in one statement and inserts its session some statements later; a
change of the password ends the sessions it finds, in a statement after its
own.  A ledger beside the store numbers each account's password changes; no
statement reads it.
-/

namespace DbaBrain.Db.WebAuthStore

open DbaBrain.Foundation DbaBrain.Foundation.Execution

abbrev Sessions := Table Session.webSessionId fun session : Session => some session.tokenFingerprint

/-- `is_active = 0`. -/
def retired : Table.Amendment Session.webSessionId fun session : Session => some session.tokenFingerprint where
  change session := { session with isActive := false }
  keeps _ := rfl
  shrinks _ := Or.inr rfl

/-- `last_seen_at`. -/
def seenAt (now : Int) : Table.Amendment Session.webSessionId fun session : Session => some session.tokenFingerprint where
  change session := { session with lastSeenAt := now }
  keeps _ := rfl
  shrinks _ := Or.inr rfl

/-- What `set_password` writes. -/
def newPassword (encoded passwordRef : String) (mustChangePassword : Bool) : Table.Amendment User.webUserId activeName :=
  rewrite (fun user => { user with
      passwordHash := encoded
      passwordRef := passwordRef
      mustChangePassword := mustChangePassword
      failedLoginCount := 0
      lockedUntil := none })
    (fun _ => rfl) (fun _ => rfl) fun _ => rfl

/-- What `deactivate_user` writes. -/
def deactivated : Table.Amendment User.webUserId activeName where
  change user := { user with isActive := false }
  keeps _ := rfl
  shrinks _ := Or.inl rfl

def Sessions.retireAll (sessions : Sessions) (ids : List Nat) : Sessions :=
  ids.foldl (fun table id => table.amend id retired) sessions

def sessionOf (auth : WebAuth) (users : Users) (sessions : Sessions) (token : String) : Option (Session × User) :=
  if Text.strip token = "" then none
  else
    (sessions.rows.find? fun session => session.tokenFingerprint = auth.tokenFingerprint token && session.isActive).bind
      fun session => (users.lookup session.webUserId).map fun user => (session, user)

structure Resolved where
  webSessionId : Nat
  webUserId : Nat
  username : String
  displayName : String
  userLevel : Nat
  csrfToken : String
  mustChangePassword : Bool
  issuedAt : Int
  expiresAt : Int

def resolved (session : Session) (user : User) : Resolved where
  webSessionId := session.webSessionId
  webUserId := session.webUserId
  username := user.username
  displayName := user.displayName
  userLevel := user.userLevel
  csrfToken := session.csrfToken
  mustChangePassword := user.mustChangePassword
  issuedAt := session.issuedAt
  expiresAt := session.expiresAt

def resolveSession (auth : WebAuth) (users : Users) (sessions : Sessions) (token : String) (now : Int) (touch : Bool) :
    Option Resolved × Sessions :=
  match sessionOf auth users sessions token with
  | none => (none, sessions)
  | some (session, user) =>
      if session.expiresAt ≤ now ∨ user.isActive = false then (none, sessions.amend session.webSessionId retired)
      else (some (resolved session user), if touch then sessions.amend session.webSessionId (seenAt now) else sessions)

/-! ## Calls -/

/-- How far a call has come. -/
inductive Phase
  | idle
  /-- Its address is not held. -/
  | admitted (login : Call) (name : String) (since : Int)
  /-- The password is wrong. -/
  | missed (login : Call) (name : String) (user : User) (since : Int)
  /-- The password is right, and its hash is to be replaced or not. -/
  | verified (login : Call) (name : String) (user : User) (rehashed : Option String)
  | refused (login : Call) (name : String) (webUserId : Option Nat) (reason : Reason)
  | accepted (login : Call) (name : String) (webUserId : Nat)
  | signedIn (login : Call) (webUserId : Nat)
  /-- `set_password` found its account. -/
  | changing (user : User) (encoded passwordRef : String) (mustChangePassword revokeSessions : Bool)
  /-- `deactivate_user` found its account. -/
  | deactivating (user : User)
  /-- The account is written: by this change of its password, or deactivated. -/
  | written (webUserId : Nat) (change : Option Nat)
  | revoking (webUserId : Nat) (change : Option Nat) (ids : List Nat)

/-- What has happened, by account, by call and by session. -/
structure Ledger where
  /-- The changes written on an account's password. -/
  changed : Nat → Nat
  /-- The change whose password an account's hash encodes. -/
  encodes : Nat → Nat
  /-- The newest change that has looked its account's sessions up. -/
  swept : Nat → Nat
  /-- The newest change that has returned. -/
  ended : Nat → Nat
  /-- The account's deactivation has returned. -/
  gone : Nat → Bool
  /-- The changes a call saw when it compared its password. -/
  seen : Nat → Nat
  /-- The change whose password a call proved. -/
  proved : Nat → Nat
  /-- The change whose password a session was opened with. -/
  openedWith : Nat → Nat

structure Shared where
  users : Users
  attempts : List Attempt
  sessions : Sessions
  phase : Nat → Phase
  ledger : Ledger

/-- No call is under way, and no password has been changed. -/
def Shared.start (users : Users) (attempts : List Attempt) (sessions : Sessions) : Shared :=
  ⟨users, attempts, sessions, fun _ => .idle,
    ⟨fun _ => 0, fun _ => 0, fun _ => 0, fun _ => 0, fun _ => false, fun _ => 0, fun _ => 0, fun _ => 0⟩⟩

/-- One statement of a call, with the moment and the texts it takes from outside. -/
inductive Label
  | login (call : Nat) (login : Call) (window : Int)
  | look (call : Nat) (compared : Int)
  | miss (call : Nat) (written : Int)
  | signIn (call : Nat) (written : Int)
  | record (call : Nat) (recorded : Int)
  | issueSession (call : Nat) (token csrfToken : String) (issued expires : Int)
  | setPassword (call : Nat) (username password salt : String) (passwordRef : Option String)
      (mustChangePassword revokeSessions : Bool)
  | deactivateUser (call : Nat) (username : String)
  | write (call : Nat)
  | lookSessions (call : Nat)
  | revoke (call : Nat)
  | resolve (token : String) (now : Int) (touch : Bool)

namespace Shared

section Statements

variable (auth : WebAuth) (settings : Settings) (s : Shared) (call : Nat)

def enter (phase : Phase) : Shared := { s with phase := Function.update s.phase call phase }

/-- The failures of an address, before its account is looked at. -/
def login (login : Call) (window : Int) : Shared :=
  match auth.normalizeUsername login.username with
  | none => s
  | some name =>
      if throttled settings s.attempts login.ip (window - settings.window) then s.enter call (.refused login name none .ipThrottled)
      else s.enter call (.admitted login name (window - settings.window))

def look (login : Call) (name : String) (since compared : Int) : Shared :=
  match getUser s.users name with
  | none => s.enter call (.refused login name none .noUser)
  | some user =>
      if user.isLocked compared then s.enter call (.refused login name (some user.webUserId) .locked)
      else if auth.verifyPassword login.password user.passwordHash = false then s.enter call (.missed login name user since)
      else
        match auth.rehash login.salt login.password user with
        | none => s.enter call .idle
        | some rehashed =>
            { s.enter call (.verified login name user rehashed) with
              ledger := { s.ledger with
                seen := Function.update s.ledger.seen call (s.ledger.changed user.webUserId)
                proved := Function.update s.ledger.proved call (s.ledger.encodes user.webUserId) } }

def countMiss (login : Call) (name : String) (user : User) (since written : Int) : Shared :=
  let failed := accountFailures s.attempts user.webUserId (user.countedSince since) + 1
  { s.enter call (.refused login name (some user.webUserId) .badPassword) with
    users := s.users.amend user.webUserId (registerFailure settings failed written) }

def signIn (login : Call) (name : String) (user : User) (rehashed : Option String) (written : Int) : Shared :=
  { s.enter call (.accepted login name user.webUserId) with
    users := s.users.amend user.webUserId (registerSuccess rehashed written)
    ledger := { s.ledger with
      encodes := if rehashed.isSome then Function.update s.ledger.encodes user.webUserId (s.ledger.proved call)
        else s.ledger.encodes } }

def record (attempt : Attempt) (phase : Phase) : Shared :=
  { s.enter call phase with attempts := s.attempts ++ [attempt] }

/-- `INSERT` of `issue_session`, refused for a fingerprint in use. -/
def issueSession (login : Call) (webUserId : Nat) (token csrfToken : String) (issued expires : Int) : Shared :=
  let session : Session := ⟨s.sessions.nextKey 0, webUserId, auth.tokenFingerprint token, csrfToken, issued, expires, issued,
    login.ip, Text.take 256 login.userAgent, true⟩
  match s.sessions.insert? session with
  | none => s.enter call .idle
  | some sessions =>
      { s.enter call .idle with
        sessions := sessions
        ledger := { s.ledger with
          openedWith := Function.update s.ledger.openedWith session.webSessionId (s.ledger.proved call) } }

def setPassword (username password salt : String) (passwordRef : Option String)
    (mustChangePassword revokeSessions : Bool) : Shared :=
  match auth.normalizeUsername username, auth.hashPassword salt password with
  | some name, some encoded =>
      match getUser s.users name with
      | none => s
      | some user =>
          s.enter call (.changing user encoded (passwordRef.getD user.passwordRef) mustChangePassword revokeSessions)
  | _, _ => s

def deactivateUser (username : String) : Shared :=
  match (auth.normalizeUsername username).bind (getUser s.users) with
  | none => s
  | some user => s.enter call (.deactivating user)

/-- `UPDATE` of `set_password`, which returns with it when it is told to keep the sessions. -/
def writePassword (user : User) (encoded passwordRef : String) (mustChangePassword revokeSessions : Bool) : Shared :=
  let id := user.webUserId
  let change := s.ledger.changed id + 1
  { s.enter call (if revokeSessions then .written id (some change) else .idle) with
    users := s.users.amend id (newPassword encoded passwordRef mustChangePassword)
    ledger := { s.ledger with
      changed := Function.update s.ledger.changed id change
      encodes := Function.update s.ledger.encodes id change
      ended := if revokeSessions then s.ledger.ended else Function.update s.ledger.ended id change } }

def writeInactive (user : User) : Shared :=
  { s.enter call (.written user.webUserId none) with users := s.users.amend user.webUserId deactivated }

/-- `SELECT` of `revoke_user_sessions`. -/
def lookSessions (id : Nat) (change : Option Nat) : Shared :=
  let ids := (s.sessions.rows.filter fun session => session.webUserId = id && session.isActive).map Session.webSessionId
  { s.enter call (.revoking id change ids) with
    ledger := { s.ledger with
      swept := Function.update s.ledger.swept id (max (s.ledger.swept id) (change.getD 0)) } }

/-- Its `UPDATE`s, with which the call returns. -/
def revoke (id : Nat) (change : Option Nat) (ids : List Nat) : Shared :=
  { s.enter call .idle with
    sessions := s.sessions.retireAll ids
    ledger := { s.ledger with
      ended := Function.update s.ledger.ended id (max (s.ledger.ended id) (change.getD 0))
      gone := if change.isNone then Function.update s.ledger.gone id true else s.ledger.gone } }

/-- A statement, where its call has come to it. -/
def step : Label → Option Shared
  | .login call login window =>
      match s.phase call with
      | .idle => some (s.login auth settings call login window)
      | _ => none
  | .look call compared =>
      match s.phase call with
      | .admitted login name since => some (s.look auth call login name since compared)
      | _ => none
  | .miss call written =>
      match s.phase call with
      | .missed login name user since => some (s.countMiss settings call login name user since written)
      | _ => none
  | .signIn call written =>
      match s.phase call with
      | .verified login name user rehashed => some (s.signIn call login name user rehashed written)
      | _ => none
  | .record call recorded =>
      match s.phase call with
      | .refused login name id reason => some (s.record call (login.attempt id name reason recorded) .idle)
      | .accepted login name id => some (s.record call (login.attempt (some id) name .ok recorded) (.signedIn login id))
      | _ => none
  | .issueSession call token csrfToken issued expires =>
      match s.phase call with
      | .signedIn login id => some (s.issueSession auth call login id token csrfToken issued expires)
      | _ => none
  | .setPassword call username password salt passwordRef mustChangePassword revokeSessions =>
      match s.phase call with
      | .idle => some (s.setPassword auth call username password salt passwordRef mustChangePassword revokeSessions)
      | _ => none
  | .deactivateUser call username =>
      match s.phase call with
      | .idle => some (s.deactivateUser auth call username)
      | _ => none
  | .write call =>
      match s.phase call with
      | .changing user encoded passwordRef mustChangePassword revokeSessions =>
          some (s.writePassword call user encoded passwordRef mustChangePassword revokeSessions)
      | .deactivating user => some (s.writeInactive call user)
      | _ => none
  | .lookSessions call =>
      match s.phase call with
      | .written id change => some (s.lookSessions call id change)
      | _ => none
  | .revoke call =>
      match s.phase call with
      | .revoking id change ids => some (s.revoke call id change ids)
      | _ => none
  | .resolve token now touch => some { s with sessions := (resolveSession auth s.users s.sessions token now touch).2 }

end Statements

end Shared

/-! ## Accounts that are gone -/

section Proofs

variable {auth : WebAuth} {settings : Settings} {s next : Shared} {label : Label}

def Inactive (users : Users) (id : Nat) : Prop := ∀ user, users.lookup id = some user → user.isActive = false

/-- A change of an account that leaves one that is disabled so. -/
def KeepsInactive (amendment : Table.Amendment User.webUserId activeName) : Prop :=
  ∀ user : User, user.isActive = false → (amendment.change user).isActive = false

variable {id call : Nat} {phase : Phase} {sessions : Sessions}
variable {users : Users} {session : Session}

theorem Inactive.amend (inactive : Inactive users id) (other : Nat)
    {amendment : Table.Amendment User.webUserId activeName} (keeps : KeepsInactive amendment) :
    Inactive (users.amend other amendment) id := by
  intro user found
  rw [Table.lookup_amend, Option.map_eq_some_iff] at found
  obtain ⟨old, before, rfl⟩ := found
  split
  · exact keeps old (inactive old before)
  · exact inactive old before

theorem inactive_deactivated (users : Users) (id : Nat) : Inactive (users.amend id deactivated) id := by
  intro user found
  rw [Table.lookup_amend, Option.map_eq_some_iff] at found
  obtain ⟨old, _, rfl⟩ := found
  rw [if_pos rfl]
  rfl

/-- An account whose deactivation has been written is not active. -/
structure Disabled (s : Shared) : Prop where
  gone : ∀ id, s.ledger.gone id = true → Inactive s.users id
  written : ∀ call id, s.phase call = .written id none → Inactive s.users id
  revoking : ∀ call id ids, s.phase call = .revoking id none ids → Inactive s.users id

/-- A call moves on to another phase. -/
theorem Disabled.enter (disabled : Disabled s) (users : ∀ id, Inactive s.users id → Inactive next.users id)
    (gone : ∀ id, next.ledger.gone id = true → s.ledger.gone id = true ∨ Inactive next.users id)
    (phases : next.phase = Function.update s.phase call phase)
    (written : ∀ id, phase = .written id none → Inactive next.users id)
    (revoking : ∀ id ids, phase = .revoking id none ids → Inactive next.users id) : Disabled next := by
  constructor
  · intro id isGone
    rcases gone id isGone with before | inactive
    · exact users id (disabled.gone id before)
    · exact inactive
  · intro other id reached
    rw [phases] at reached
    by_cases own : other = call
    · rw [own, Function.update_self] at reached
      exact written id reached
    · rw [Function.update_of_ne own] at reached
      exact users id (disabled.written other id reached)
  · intro other id ids reached
    rw [phases] at reached
    by_cases own : other = call
    · rw [own, Function.update_self] at reached
      exact revoking id ids reached
    · rw [Function.update_of_ne own] at reached
      exact users id (disabled.revoking other id ids reached)

/-! ## What a statement does -/

/-- A phase that neither has proved a password nor is to end sessions. -/
def Phase.Plain : Phase → Prop
  | .idle | .admitted _ _ _ | .missed _ _ _ _ | .refused _ _ _ _ | .deactivating _ => True
  | _ => False

/-- What a statement can do to accounts, sessions and the ledger. -/
inductive Effect (auth : WebAuth) (s : Shared) : Label → Shared → Prop
  | same {label : Label} : Effect auth s label s
  | moves {label : Label} (call : Nat) {phase : Phase} {users : Users} {attempts : List Attempt} (plain : phase.Plain)
      (keeps : ∀ id, Inactive s.users id → Inactive users id) :
      Effect auth s label { s.enter call phase with users := users, attempts := attempts }
  | proves {call : Nat} {compared : Int} (login : Call) (name : String) (user : User) (rehashed : Option String) :
      Effect auth s (.look call compared) { s.enter call (.verified login name user rehashed) with
        ledger := { s.ledger with
          seen := Function.update s.ledger.seen call (s.ledger.changed user.webUserId)
          proved := Function.update s.ledger.proved call (s.ledger.encodes user.webUserId) } }
  | signsIn {call : Nat} {written : Int} {login : Call} {name : String} {user : User} {rehashed : Option String}
      (reached : s.phase call = .verified login name user rehashed) :
      Effect auth s (.signIn call written) (s.signIn call login name user rehashed written)
  | records {call : Nat} {recorded : Int} {login : Call} {name : String} {id : Nat} {attempts : List Attempt}
      (reached : s.phase call = .accepted login name id) :
      Effect auth s (.record call recorded) { s.enter call (.signedIn login id) with attempts := attempts }
  | opens {call : Nat} {token csrfToken : String} {issued expires : Int} {login : Call} {id : Nat} {session : Session}
      {sessions : Sessions} (reached : s.phase call = .signedIn login id)
      (inserted : s.sessions.insert? session = some sessions) (own : session.webUserId = id) :
      Effect auth s (.issueSession call token csrfToken issued expires) { s.enter call .idle with
        sessions := sessions
        ledger := { s.ledger with
          openedWith := Function.update s.ledger.openedWith session.webSessionId (s.ledger.proved call) } }
  | changes {call : Nat} {username password salt : String} {passwordRef : Option String}
      {mustChangePassword revokeSessions : Bool} (user : User) (encoded kept : String) :
      Effect auth s (.setPassword call username password salt passwordRef mustChangePassword revokeSessions)
        (s.enter call (.changing user encoded kept mustChangePassword revokeSessions))
  | writes {call : Nat} {user : User} {encoded passwordRef : String} {mustChangePassword revokeSessions : Bool}
      (reached : s.phase call = .changing user encoded passwordRef mustChangePassword revokeSessions) :
      Effect auth s (.write call) (s.writePassword call user encoded passwordRef mustChangePassword revokeSessions)
  | disables {call : Nat} (user : User) : Effect auth s (.write call) (s.writeInactive call user)
  | looksUp {call id : Nat} {change : Option Nat} (reached : s.phase call = .written id change) :
      Effect auth s (.lookSessions call) (s.lookSessions call id change)
  | revokes {call id : Nat} {change : Option Nat} {ids : List Nat} (reached : s.phase call = .revoking id change ids) :
      Effect auth s (.revoke call) (s.revoke call id change ids)
  | resolves {token : String} {now : Int} {touch : Bool} : Effect auth s (.resolve token now touch)
      { s with sessions := (resolveSession auth s.users s.sessions token now touch).2 }

theorem effect_of_step (ran : s.step auth settings label = some next) : Effect auth s label next := by
  cases label with
  | login call login window =>
    simp only [Shared.step] at ran
    split at ran
    · cases ran
      unfold Shared.login
      split
      · exact .same
      · split
        · exact .moves call trivial fun _ => id
        · exact .moves call trivial fun _ => id
    · cases ran
  | look call compared =>
    simp only [Shared.step] at ran
    split at ran
    · cases ran
      unfold Shared.look
      split
      · exact .moves call trivial fun _ => id
      · split
        · exact .moves call trivial fun _ => id
        · split
          · exact .moves call trivial fun _ => id
          · split
            · exact .moves call trivial fun _ => id
            · exact .proves _ _ _ _
    · cases ran
  | miss call written =>
    simp only [Shared.step] at ran
    split at ran
    · cases ran
      refine .moves call trivial fun id inactive => inactive.amend _ ?_
      exact fun _ disabled => disabled
    · cases ran
  | signIn call written =>
    simp only [Shared.step] at ran
    split at ran
    · rename_i reached
      cases ran
      exact .signsIn reached
    · cases ran
  | record call recorded =>
    simp only [Shared.step] at ran
    split at ran
    · cases ran
      exact .moves call trivial fun _ => id
    · rename_i reached
      cases ran
      exact .records reached
    · cases ran
  | issueSession call token csrfToken issued expires =>
    simp only [Shared.step] at ran
    split at ran
    · rename_i reached
      cases ran
      unfold Shared.issueSession
      dsimp only
      split
      · exact .moves call trivial fun _ => id
      · rename_i inserted
        exact .opens reached inserted rfl
    · cases ran
  | setPassword call username password salt passwordRef mustChangePassword revokeSessions =>
    simp only [Shared.step] at ran
    split at ran
    · cases ran
      unfold Shared.setPassword
      split
      · split
        · exact .same
        · exact .changes _ _ _
      · exact .same
    · cases ran
  | deactivateUser call username =>
    simp only [Shared.step] at ran
    split at ran
    · cases ran
      unfold Shared.deactivateUser
      split
      · exact .same
      · exact .moves call trivial fun _ => id
    · cases ran
  | write call =>
    simp only [Shared.step] at ran
    split at ran
    · rename_i reached
      cases ran
      exact .writes reached
    · cases ran
      exact .disables _
    · cases ran
  | lookSessions call =>
    simp only [Shared.step] at ran
    split at ran
    · rename_i reached
      cases ran
      exact .looksUp reached
    · cases ran
  | revoke call =>
    simp only [Shared.step] at ran
    split at ran
    · rename_i reached
      cases ran
      exact .revokes reached
    · cases ran
  | resolve token now touch =>
    cases ran
    exact .resolves

theorem Disabled.step (disabled : Disabled s) (ran : s.step auth settings label = some next) : Disabled next := by
  cases effect_of_step ran with
  | same => exact disabled
  | moves call plain keeps =>
    refine disabled.enter keeps (fun _ => Or.inl) rfl ?_ ?_
    · rintro id rfl
      exact plain.elim
    · rintro id ids rfl
      exact plain.elim
  | proves => exact disabled.enter (fun _ inactive => inactive) (fun _ => Or.inl) rfl (fun _ => nofun) fun _ _ => nofun
  | signsIn =>
    refine disabled.enter (fun id inactive => inactive.amend _ ?_) (fun _ => Or.inl) rfl (fun _ => nofun) fun _ _ => nofun
    exact fun _ disabled => disabled
  | records | opens | changes => exact disabled.enter (fun _ inactive => inactive) (fun _ => Or.inl) rfl (fun _ => nofun) fun _ _ => nofun
  | writes =>
    refine disabled.enter (fun id inactive => inactive.amend _ ?_) (fun _ => Or.inl) rfl ?_ ?_
    · exact fun _ disabled => disabled
    · intro id
      split <;> exact nofun
    · intro id ids
      split <;> exact nofun
  | disables user =>
    refine disabled.enter (fun id inactive => inactive.amend _ fun _ _ => rfl) (fun _ => Or.inl) rfl ?_ fun _ _ => nofun
    intro id reached
    cases reached
    exact inactive_deactivated s.users user.webUserId
  | looksUp reached =>
    refine disabled.enter (fun _ inactive => inactive) (fun _ => Or.inl) rfl (fun _ => nofun) ?_
    intro _ _ looking
    cases looking
    exact disabled.written _ _ reached
  | @revokes call id change ids reached =>
    refine disabled.enter (fun _ inactive => inactive) ?_ rfl (fun _ => nofun) fun _ _ => nofun
    intro other isGone
    cases change with
    | some change => exact Or.inl isGone
    | none =>
      by_cases own : other = id
      · exact Or.inr (own ▸ disabled.revoking call id ids reached)
      · left
        simpa [Shared.revoke, own] using isGone
  | resolves => exact ⟨disabled.gone, disabled.written, disabled.revoking⟩

/-! ## Passwords that are changed -/

/-- The statement comes in time: a hash at an older cost is replaced before the password is changed, a
session is inserted before a change its login did not see looks the account's sessions up, and no
`set_password` is told to keep the sessions. -/
def timely (s : Shared) : Label → Bool
  | .signIn call _ =>
      match s.phase call with
      | .verified _ _ user (some _) => s.ledger.changed user.webUserId = s.ledger.seen call
      | _ => true
  | .issueSession call _ _ _ _ =>
      match s.phase call with
      | .signedIn _ id => s.ledger.swept id ≤ s.ledger.seen call
      | _ => true
  | .setPassword _ _ _ _ _ _ revokeSessions => revokeSessions
  | _ => true

def LiveOf (sessions : Sessions) (id : Nat) (session : Session) : Prop :=
  session ∈ sessions.rows ∧ session.isActive = true ∧ session.webUserId = id

/-- What a phase rests on. -/
def PhaseOk (ledger : Ledger) (sessions : Sessions) (call : Nat) : Phase → Prop
  | .verified _ _ _ _ | .accepted _ _ _ | .signedIn _ _ => ledger.proved call = ledger.seen call
  | .changing _ _ _ _ revokeSessions => revokeSessions = true
  -- every session an older password opened is on the list
  | .revoking id change ids => change.getD 0 ≤ ledger.swept id ∧ ∀ session, LiveOf sessions id session →
      ledger.openedWith session.webSessionId < change.getD 0 → session.webSessionId ∈ ids
  | _ => True

theorem Phase.Plain.ok (plain : phase.Plain) (ledger : Ledger) (sessions : Sessions) (call : Nat) :
    PhaseOk ledger sessions call phase := by
  cases phase <;> trivial

/-- Every hash encodes the last password set, and no active session is older than a change that returned. -/
structure Guarded (s : Shared) : Prop where
  encodes : ∀ id, s.ledger.encodes id = s.ledger.changed id
  ended : ∀ id, s.ledger.ended id ≤ s.ledger.swept id
  live : ∀ id session, LiveOf s.sessions id session → s.ledger.ended id ≤ s.ledger.openedWith session.webSessionId
  phases : ∀ call, PhaseOk s.ledger s.sessions call (s.phase call)

/-- An active session was active, with what it was opened with; or it is new, and opened after every lookup. -/
def Comes (s next : Shared) : Prop :=
  ∀ id session, LiveOf next.sessions id session →
    (∃ before, LiveOf s.sessions id before ∧ before.webSessionId = session.webSessionId ∧
      next.ledger.openedWith session.webSessionId = s.ledger.openedWith session.webSessionId) ∨
    s.ledger.swept id ≤ next.ledger.openedWith session.webSessionId

theorem comes_of_eq (sessions : next.sessions = s.sessions) (openedWith : next.ledger.openedWith = s.ledger.openedWith) :
    Comes s next := by
  intro id session live
  rw [sessions] at live
  exact Or.inl ⟨session, live, rfl, by rw [openedWith]⟩

/-- A phase a call has come to stays as well founded as it is, whatever else happens. -/
theorem PhaseOk.kept (ok : PhaseOk s.ledger s.sessions call phase) (comes : Comes s next)
    (swept : ∀ id, s.ledger.swept id ≤ next.ledger.swept id) (seen : next.ledger.seen call = s.ledger.seen call)
    (proved : next.ledger.proved call = s.ledger.proved call) : PhaseOk next.ledger next.sessions call phase := by
  cases phase with
  | verified | accepted | signedIn => exact proved.trans (ok.trans seen.symm)
  | changing => exact ok
  | revoking id change ids =>
    refine ⟨ok.1.trans (swept id), ?_⟩
    intro session live older
    rcases comes id session live with ⟨before, wasLive, same, opened⟩ | new
    · rw [opened, ← same] at older
      exact same ▸ ok.2 before wasLive older
    · exact absurd (older.trans_le ok.1) (not_lt.mpr new)
  | idle | admitted | missed | refused | deactivating | written => trivial

/-- One call moves to a phase that is well founded. -/
theorem Guarded.enter (guarded : Guarded s) (encodes : ∀ id, next.ledger.encodes id = next.ledger.changed id)
    (ended : ∀ id, next.ledger.ended id = s.ledger.ended id) (swept : ∀ id, s.ledger.swept id ≤ next.ledger.swept id)
    (comes : Comes s next) (others : ∀ other, other ≠ call → next.ledger.seen other = s.ledger.seen other ∧
      next.ledger.proved other = s.ledger.proved other) (phases : next.phase = Function.update s.phase call phase)
    (ok : PhaseOk next.ledger next.sessions call phase) : Guarded next := by
  refine ⟨encodes, ?_, ?_, ?_⟩
  · intro id
    rw [ended]
    exact (guarded.ended id).trans (swept id)
  · intro id session live
    rw [ended]
    rcases comes id session live with ⟨before, wasLive, same, opened⟩ | new
    · rw [opened, ← same]
      exact guarded.live id before wasLive
    · exact (guarded.ended id).trans new
  · intro other
    rw [phases]
    by_cases own : other = call
    · rw [own, Function.update_self]
      exact ok
    · rw [Function.update_of_ne own]
      exact (guarded.phases other).kept comes swept (others other own).1 (others other own).2

theorem liveOf_retireAll {ids : List Nat} (live : LiveOf (sessions.retireAll ids) id session) :
    LiveOf sessions id session ∧ session.webSessionId ∉ ids := by
  induction ids generalizing sessions with
  | nil => exact ⟨live, List.not_mem_nil⟩
  | cons first rest ih =>
    obtain ⟨⟨member, active, own⟩, notLater⟩ := ih live
    obtain ⟨old, present, rfl⟩ := List.mem_map.mp member
    split at active
    · cases active
    · rename_i apart
      rw [if_neg apart] at own notLater ⊢
      refine ⟨⟨present, active, own⟩, ?_⟩
      rw [List.mem_cons]
      rintro (same | later)
      · exact apart same
      · exact notLater later

theorem comes_of_resolve (auth : WebAuth) (s : Shared) (token : String) (now : Int) (touch : Bool) :
    Comes s { s with sessions := (resolveSession auth s.users s.sessions token now touch).2 } := by
  intro id session live
  left
  have amended {amendment : Table.Amendment Session.webSessionId fun session : Session => some session.tokenFingerprint}
      {other : Nat} (active : ∀ old : Session, (amendment.change old).isActive = true → old.isActive = true)
      (owner : ∀ old : Session, (amendment.change old).webUserId = old.webUserId)
      (live : LiveOf (s.sessions.amend other amendment) id session) :
      ∃ before, LiveOf s.sessions id before ∧ before.webSessionId = session.webSessionId := by
    obtain ⟨member, isActive, own⟩ := live
    obtain ⟨old, present, rfl⟩ := List.mem_map.mp member
    split at isActive
    · rename_i here
      rw [if_pos here] at own ⊢
      exact ⟨old, ⟨present, active old isActive, (owner old).symm.trans own⟩, (amendment.keeps old).symm⟩
    · rename_i apart
      rw [if_neg apart] at own ⊢
      exact ⟨old, ⟨present, isActive, own⟩, rfl⟩
  have found : ∃ before, LiveOf s.sessions id before ∧ before.webSessionId = session.webSessionId := by
    unfold resolveSession at live
    dsimp only at live
    split at live
    · exact ⟨session, live, rfl⟩
    · split at live
      · refine amended ?_ (fun _ => rfl) live
        intro old active
        cases active
      · dsimp only at live
        split at live
        · exact amended (fun _ active => active) (fun _ => rfl) live
        · exact ⟨session, live, rfl⟩
  obtain ⟨before, wasLive, same⟩ := found
  exact ⟨before, wasLive, same, rfl⟩

theorem comes_of_insert {login : Call} (guarded : Guarded s) (reached : s.phase call = .signedIn login id)
    (inTime : s.ledger.swept id ≤ s.ledger.seen call) (inserted : s.sessions.insert? session = some sessions)
    (own : session.webUserId = id) (phase : Nat → Phase) :
    Comes s { s with
      phase := phase
      sessions := sessions
      ledger := { s.ledger with
        openedWith := Function.update s.ledger.openedWith session.webSessionId (s.ledger.proved call) } } := by
  intro other row live
  obtain ⟨member, active, owner⟩ := live
  rw [Table.rows_of_insert? inserted] at member
  rcases List.mem_append.mp member with old | new
  · have fresh : row.webSessionId ≠ session.webSessionId :=
      Table.lookup_eq_none_iff.mp (Table.fresh_of_insert? inserted) row old
    exact Or.inl ⟨row, ⟨old, active, owner⟩, rfl, Function.update_of_ne fresh _ _⟩
  · right
    obtain rfl := List.mem_singleton.mp new
    have proved : s.ledger.proved call = s.ledger.seen call := by
      have ok := guarded.phases call
      rw [reached] at ok
      exact ok
    change _ ≤ Function.update s.ledger.openedWith row.webSessionId (s.ledger.proved call) row.webSessionId
    rw [Function.update_self, proved, ← owner, own]
    exact inTime

theorem Guarded.step (guarded : Guarded s) (ran : s.step auth settings label = some next) (inTime : timely s label = true) :
    Guarded next := by
  have kept (call : Nat) : ∀ other, other ≠ call →
      s.ledger.seen other = s.ledger.seen other ∧ s.ledger.proved other = s.ledger.proved other :=
    fun _ _ => ⟨rfl, rfl⟩
  cases effect_of_step ran with
  | same => exact guarded
  | moves call plain =>
    exact guarded.enter guarded.encodes (fun _ => rfl) (fun _ => le_refl _) (comes_of_eq rfl rfl) (kept call) rfl
      (plain.ok _ _ _)
  | @proves call compared login name user rehashed =>
    refine guarded.enter guarded.encodes (fun _ => rfl) (fun _ => le_refl _) (comes_of_eq rfl rfl) ?_ rfl ?_
    · intro other apart
      exact ⟨Function.update_of_ne apart _ _, Function.update_of_ne apart _ _⟩
    · change Function.update _ _ _ _ = Function.update _ _ _ _
      rw [Function.update_self, Function.update_self]
      exact guarded.encodes user.webUserId
  | @signsIn call written login name user rehashed reached =>
    have proved := guarded.phases call
    rw [reached] at proved
    refine guarded.enter ?_ (fun _ => rfl) (fun _ => le_refl _) (comes_of_eq rfl rfl) (kept call) rfl proved
    cases rehashed with
    | none => exact guarded.encodes
    | some encoded =>
      intro id
      change Function.update _ _ _ _ = _
      by_cases own : id = user.webUserId
      · have unchanged : s.ledger.changed user.webUserId = s.ledger.seen call := by
          simpa [timely, reached] using inTime
        have same : s.ledger.proved call = s.ledger.changed user.webUserId := proved.trans unchanged.symm
        rw [own, Function.update_self, same]
        rfl
      · rw [Function.update_of_ne own]
        exact guarded.encodes id
  | @records call recorded login name id attempts reached =>
    have proved := guarded.phases call
    rw [reached] at proved
    exact guarded.enter guarded.encodes (fun _ => rfl) (fun _ => le_refl _) (comes_of_eq rfl rfl) (kept call) rfl proved
  | @opens call _ _ _ _ login id session sessions reached inserted own =>
    have comes := comes_of_insert guarded reached (by simpa [timely, reached] using inTime) inserted own
    exact guarded.enter guarded.encodes (fun _ => rfl) (fun _ => le_refl _) (comes _) (kept call) rfl trivial
  | @changes call =>
    exact guarded.enter guarded.encodes (fun _ => rfl) (fun _ => le_refl _) (comes_of_eq rfl rfl) (kept call) rfl inTime
  | @writes call user encoded passwordRef mustChangePassword revokeSessions reached =>
    have revokes := guarded.phases call
    rw [reached] at revokes
    obtain rfl : revokeSessions = true := revokes
    refine guarded.enter ?_ (fun _ => rfl) (fun _ => le_refl _) (comes_of_eq rfl rfl) (kept call) rfl trivial
    intro id
    change Function.update _ _ _ _ = Function.update _ _ _ _
    by_cases own : id = user.webUserId
    · rw [own, Function.update_self, Function.update_self]
    · rw [Function.update_of_ne own, Function.update_of_ne own]
      exact guarded.encodes id
  | @disables call user =>
    exact guarded.enter guarded.encodes (fun _ => rfl) (fun _ => le_refl _) (comes_of_eq rfl rfl) (kept call) rfl trivial
  | @looksUp call id change reached =>
    have swept (other : Nat) : s.ledger.swept other ≤
        Function.update s.ledger.swept id (max (s.ledger.swept id) (change.getD 0)) other := by
      by_cases own : other = id
      · rw [own, Function.update_self]
        exact le_max_left _ _
      · rw [Function.update_of_ne own]
    refine guarded.enter guarded.encodes (fun _ => rfl) swept (comes_of_eq rfl rfl) (kept call) rfl ⟨?_, ?_⟩
    · change change.getD 0 ≤ Function.update s.ledger.swept id (max (s.ledger.swept id) (change.getD 0)) id
      rw [Function.update_self]
      exact le_max_right _ _
    · rintro session ⟨member, active, own⟩ _
      refine List.mem_map.mpr ⟨session, List.mem_filter.mpr ⟨member, ?_⟩, rfl⟩
      rw [Bool.and_eq_true, decide_eq_true_eq]
      exact ⟨own, active⟩
  | @revokes call id change ids reached =>
    obtain ⟨early, listed⟩ : change.getD 0 ≤ s.ledger.swept id ∧ ∀ session, LiveOf s.sessions id session →
        s.ledger.openedWith session.webSessionId < change.getD 0 → session.webSessionId ∈ ids := by
      have ok := guarded.phases call
      rw [reached] at ok
      exact ok
    have comes : Comes s (s.revoke call id change ids) := by
      intro other session live
      exact Or.inl ⟨session, (liveOf_retireAll live).1, rfl, rfl⟩
    refine ⟨guarded.encodes, ?_, ?_, ?_⟩
    · intro other
      change Function.update s.ledger.ended id (max (s.ledger.ended id) (change.getD 0)) other ≤ s.ledger.swept other
      by_cases own : other = id
      · rw [own, Function.update_self]
        exact max_le (guarded.ended id) early
      · rw [Function.update_of_ne own]
        exact guarded.ended other
    · intro other session live
      obtain ⟨wasLive, unlisted⟩ := liveOf_retireAll live
      change Function.update s.ledger.ended id (max (s.ledger.ended id) (change.getD 0)) other ≤
        s.ledger.openedWith session.webSessionId
      by_cases own : other = id
      · subst own
        rw [Function.update_self]
        refine max_le (guarded.live other session wasLive) ?_
        by_contra older
        exact unlisted (listed session wasLive (not_le.mp older))
      · rw [Function.update_of_ne own]
        exact guarded.live other session wasLive
    · intro other
      change PhaseOk _ _ other (Function.update s.phase call .idle other)
      by_cases own : other = call
      · rw [own, Function.update_self]
        trivial
      · rw [Function.update_of_ne own]
        exact (guarded.phases other).kept comes (fun _ => le_refl _) rfl rfl
  | @resolves token now touch =>
    have comes := comes_of_resolve auth s token now touch
    refine ⟨guarded.encodes, guarded.ended, ?_, ?_⟩
    · intro id session live
      rcases comes id session live with ⟨before, wasLive, same, opened⟩ | new
      · rw [← same]
        exact guarded.live id before wasLive
      · exact (guarded.ended id).trans new
    · intro call
      exact (guarded.phases call).kept comes (fun _ => le_refl _) rfl rfl

theorem disabled_start (users : Users) (attempts : List Attempt) (sessions : Sessions) :
    Disabled (Shared.start users attempts sessions) := by
  refine ⟨?_, ?_, ?_⟩
  · intro id gone
    cases gone
  · intro call id reached
    cases reached
  · intro call id ids reached
    cases reached

theorem guarded_start (users : Users) (attempts : List Attempt) (sessions : Sessions) :
    Guarded (Shared.start users attempts sessions) :=
  ⟨fun _ => rfl, fun _ => le_refl _, fun _ _ _ => le_refl _, fun _ => trivial⟩

theorem of_resolveSession {token : String} {now : Int} {touch : Bool} {answer : Resolved}
    (valid : (resolveSession auth users sessions token now touch).1 = some answer) :
    ∃ session user, LiveOf sessions answer.webUserId session ∧ session.webSessionId = answer.webSessionId ∧
      users.lookup answer.webUserId = some user ∧ user.isActive = true := by
  unfold resolveSession at valid
  split at valid
  · cases valid
  · rename_i session user found
    split at valid
    · cases valid
    · rename_i stands
      obtain rfl := Option.some.inj valid
      unfold sessionOf at found
      split at found
      · cases found
      · obtain ⟨row, there, looked⟩ := Option.bind_eq_some_iff.mp found
        obtain ⟨owner, lookedUp, same⟩ := Option.map_eq_some_iff.mp looked
        cases same
        have chosen := List.find?_some there
        simp only [Bool.and_eq_true, decide_eq_true_eq] at chosen
        rw [not_or, Bool.not_eq_false] at stands
        exact ⟨session, user, ⟨List.mem_of_find?_eq_some there, chosen.2, rfl⟩, rfl, lookedUp, stands.2⟩

end Proofs

/-- In every run, a session that resolves is of no account whose deactivation has returned; and where every
statement comes in time, it was opened with the last password a returned `set_password` left, or a newer one. -/
theorem old_sessions_end {auth : WebAuth} {settings : Settings} {users : Users} {attempts : List Attempt}
    {sessions : Sessions} {labels : List Label} {final : Shared}
    (run : exec (Shared.step auth settings) (Shared.start users attempts sessions) labels = some final)
    {token : String} {now : Int} {touch : Bool} {answer : Resolved}
    (valid : (resolveSession auth final.users final.sessions token now touch).1 = some answer) :
    final.ledger.gone answer.webUserId = false ∧
      (Every (Shared.step auth settings) (fun s label _ => timely s label = true) (Shared.start users attempts sessions) labels →
        final.ledger.ended answer.webUserId ≤ final.ledger.openedWith answer.webSessionId) := by
  obtain ⟨session, user, live, same, found, active⟩ := of_resolveSession valid
  constructor
  · have disabled : Disabled final := by
      refine exec_invariant ?_ (disabled_start users attempts sessions) run
      intro _ _ _ ran disabled
      exact disabled.step ran
    by_contra gone
    rw [Bool.not_eq_false] at gone
    rw [disabled.gone _ gone user found] at active
    cases active
  · intro allInTime
    have guarded : Guarded final := by
      refine exec_invariant_of_every ?_ allInTime (guarded_start users attempts sessions) run
      intro _ _ _ ran inTime guarded
      exact guarded.step ran inTime
    rw [← same]
    exact guarded.live answer.webUserId session live

/-! ### A login across a change of its password -/

/-- Passwords, names and tokens kept as they are. -/
def openAuth : WebAuth := ⟨id, fun password encoded => password = encoded, fun _ => false, fun _ password => password, id⟩

def usual : Settings := ⟨8, 15, 5⟩

def oneAccount : Users where
  rows := [⟨1, "thanh", "Thanh", "old-password", "", false, 50, true, 0, none, none⟩]
  keys_nodup := by simp
  index_nodup := by simp [activeName]

/-- The login up to its session, with the call's number and password. -/
def signInWith (call : Nat) (password : String) : List Label :=
  [.login call ⟨"thanh", password, "10.0.0.9", "browser", ""⟩ 100, .look call 100, .signIn call 100, .record call 100]

def changePassword (call : Nat) : List Label :=
  [.setPassword call "thanh" "new-password" "" none false true, .write call, .lookSessions call, .revoke call]

def openSession (call : Nat) : Label := .issueSession call "token" "csrf" 101 900

def across : List Label := signInWith 0 "old-password" ++ changePassword 1 ++ [openSession 0]

def afterwards : List Label := changePassword 1 ++ signInWith 0 "new-password" ++ [openSession 0]

/-- The old password's session resolves after `set_password` has returned. -/
theorem old_session_resolves : ∃ final answer,
    exec (Shared.step openAuth usual) (Shared.start oneAccount [] Table.empty) across = some final ∧
      (resolveSession openAuth final.users final.sessions "token" 102 true).1 = some answer ∧
        final.ledger.openedWith answer.webSessionId = 0 ∧ final.ledger.ended answer.webUserId = 1 :=
  ⟨_, _, rfl, rfl, rfl, rfl⟩

/-- A login after the change has a session of the new password. -/
theorem old_sessions_end_afterwards : ∃ final answer,
    exec (Shared.step openAuth usual) (Shared.start oneAccount [] Table.empty) afterwards = some final ∧
      (resolveSession openAuth final.users final.sessions "token" 102 true).1 = some answer ∧
        final.ledger.gone answer.webUserId = false ∧
          final.ledger.ended answer.webUserId ≤ final.ledger.openedWith answer.webSessionId := by
  obtain ⟨final, run⟩ : ∃ final,
      exec (Shared.step openAuth usual) (Shared.start oneAccount [] Table.empty) afterwards = some final := ⟨_, rfl⟩
  obtain ⟨answer, valid⟩ : ∃ answer,
      (resolveSession openAuth final.users final.sessions "token" 102 true).1 = some answer := by
    cases run
    exact ⟨_, rfl⟩
  obtain ⟨stands, current⟩ := old_sessions_end run valid
  exact ⟨final, answer, run, valid, stands, current (by decide +kernel)⟩

end DbaBrain.Db.WebAuthStore
