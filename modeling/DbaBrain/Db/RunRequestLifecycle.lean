import DbaBrain.Db.RunRequestClaim

/-!
# The life of a run request

Every operation of the queue, one statement at a time, over any number of
calls of the console and the daemon.
-/

namespace DbaBrain.Db.RunRequestLifecycle

open DbaBrain.Foundation DbaBrain.Foundation.Calendar DbaBrain.Foundation.Execution DbaBrain.Foundation.Text
open RunRequests RunRequestClaim

/-- The columns of `job_runs` that `close_finished` joins. -/
structure JobRunEnd where
  logId : Int
  status : String
  finishedAt : Option String

structure Store where
  requests : Requests
  lastId : Nat
  runs : List JobRunEnd

def Store.runIds (store : Store) : List Int := store.runs.map JobRunEnd.logId

/-- `AUTOINCREMENT`: above every id the table has ever held. -/
def Store.nextId (store : Store) : Nat := store.requests.nextKey store.lastId

/-- What `request_run` answers. -/
structure RequestAnswer where
  requestId : Nat
  created : Bool
  status : Status
  requestedAt : String
  requestedBy : String
  deriving DecidableEq

inductive Answer
  | requested (answer : RequestAnswer)
  | cancelled (requestId : Nat) (withdrawn : Bool)
  | expired (count : Nat)
  | closed (count : Nat)
  | nothing
  | raised
  deriving DecidableEq

/-- How far one call has come. -/
inductive Call
  | idle
  | requesting (code requestedBy source note : String)
  | cancelling (requestId : Nat) (actor : String)
  | claiming (call : ClaimCall)
  | expiring (ttlSeconds : Int) (remaining : List Nat) (count : Nat)
  | closing (remaining : List (Nat × String)) (closed : Nat)
  | returned (answer : Answer)
  deriving DecidableEq

inductive Statement
  | requestSelect (appCommandId requestedBy source note : String)
  | requestInsert (requestedAt answeredAt : Moment)
  | cancelSelect (requestId : Nat) (actor : String)
  | cancelUpdate (writtenAt : Moment)
  | claim (statement : ClaimStatement)
  | expireSelect (ttlSeconds : Int) (now : Moment)
  | expireUpdate (writtenAt : Moment)
  | markStarted (requestId : Nat) (writtenAt : Moment) (jobRunId : Option Int)
  | markDone (requestId : Nat) (writtenAt : Moment) (note : String)
  | release (requestId : Nat) (note : String)
  | closeSelect
  | closeUpdate (writtenAt : Moment)
  deriving DecidableEq

/-- A refused statement raises and leaves the table as it was. -/
def Store.commit (store : Store) (result : Option Requests) (after : Call) : Store × Call :=
  match result with
  | none => (store, .returned .raised)
  | some next => ({ store with requests := next }, after)

def requestSelect (store : Store) (appCommandId requestedBy source note : String) : Call :=
  let code := strip appCommandId
  if code = "" then
    .returned .raised
  else
    match pendingFor store.requests code with
    | some existing =>
        .returned (.requested ⟨existing.requestId, false, existing.status, existing.requestedAt, existing.requestedBy⟩)
    | none => .requesting code requestedBy source note

def requestInsert (store : Store) (code requestedBy source note : String) (requestedAt answeredAt : Moment) :
    Store × Call :=
  let requestId := store.nextId
  match insertRequest store.requests requestId code requestedBy source requestedAt note with
  | none => (store, .returned .raised)
  | some next =>
      ({ store with requests := next, lastId := requestId },
        .returned (.requested ⟨requestId, true, .pending, isoText answeredAt, requestedBy⟩))

def cancelSelect (store : Store) (requestId : Nat) (actor : String) : Call :=
  match store.requests.lookup requestId with
  | none => .returned (.cancelled requestId false)
  | some row => if row.status = .pending then .cancelling requestId actor else .returned (.cancelled requestId false)

def cancelNote (actor : String) : String :=
  "Cancelled by " ++ (if actor = "" then "an operator" else actor) ++ "."

/-- The requests `expire_stale` lists. -/
def staleRequests (requests : Requests) (cutoff : String) : List Nat :=
  (requests.rows.filter fun row => row.status = .pending && row.requestedAt < cutoff).map Request.requestId

def expireFrom (ttlSeconds : Int) (count : Nat) : List Nat → Call
  | [] => .returned (.expired count)
  | remaining => .expiring ttlSeconds remaining count

def expireSelect (store : Store) (ttlSeconds : Int) (now : Moment) : Call :=
  match now.shift (-(max 1 ttlSeconds)) with
  | none => .returned .raised
  | some cutoff =>
      let rows := staleRequests store.requests (isoText cutoff)
      expireFrom ttlSeconds rows.length rows

def expireNote (ttlSeconds : Int) : String := "Not picked up within " ++ toString ttlSeconds ++ "s."

def finishedRequests (store : Store) : List (Nat × String) :=
  store.requests.rows.flatMap fun row =>
    if row.status = .started then
      (store.runs.filter fun run => row.jobRunId = some run.logId && run.finishedAt.isSome).map fun run =>
        (row.requestId, run.status)
    else
      []

def closeFrom (closed : Nat) : List (Nat × String) → Call
  | [] => .returned (.closed closed)
  | remaining => .closing remaining closed

def closeNote (runStatus : String) : String := "Run finished with status " ++ runStatus ++ "."

def runStatement (store : Store) : Call → Statement → Option (Store × Call)
  | .idle, .requestSelect appCommandId requestedBy source note =>
      some (store, requestSelect store appCommandId requestedBy source note)
  | .requesting code requestedBy source note, .requestInsert requestedAt answeredAt =>
      some (requestInsert store code requestedBy source note requestedAt answeredAt)
  | .idle, .cancelSelect requestId actor => some (store, cancelSelect store requestId actor)
  | .cancelling requestId actor, .cancelUpdate writtenAt =>
      some (store.commit (finish store.requests requestId .cancelled writtenAt (cancelNote actor))
        (.returned (.cancelled requestId true)))
  | .idle, .claim statement =>
      (claimStatement store.requests .idle statement).map fun result =>
        ({ store with requests := result.1 }, .claiming result.2)
  | .claiming call, .claim statement =>
      (claimStatement store.requests call statement).map fun result =>
        ({ store with requests := result.1 }, .claiming result.2)
  | .idle, .expireSelect ttlSeconds now => some (store, expireSelect store ttlSeconds now)
  | .expiring ttlSeconds (requestId :: rest) count, .expireUpdate writtenAt =>
      some (store.commit (finish store.requests requestId .expired writtenAt (expireNote ttlSeconds))
        (expireFrom ttlSeconds count rest))
  | .idle, .markStarted requestId writtenAt jobRunId =>
      some (store.commit (markStarted store.requests store.runIds requestId writtenAt jobRunId) (.returned .nothing))
  | .idle, .markDone requestId writtenAt note =>
      some (store.commit (markDone store.requests requestId writtenAt note) (.returned .nothing))
  | .idle, .release requestId note =>
      some (store.commit (release store.requests requestId note) (.returned .nothing))
  | .idle, .closeSelect => some (store, closeFrom 0 (finishedRequests store))
  | .closing ((requestId, runStatus) :: rest) closed, .closeUpdate writtenAt =>
      some (store.commit
        (write store.requests requestId (some .started) (finished .done writtenAt (closeNote runStatus)))
        (closeFrom (closed + 1) rest))
  | _, _ => none

structure System where
  store : Store
  calls : Nat → Call

inductive Label
  | statement (call : Nat) (statement : Statement)
  | jobRuns (runs : List JobRunEnd)

def step (system : System) : Label → Option System
  | .statement call statement =>
      (runStatement system.store (system.calls call) statement).map fun result =>
        { store := result.1, calls := Function.update system.calls call result.2 }
  | .jobRuns runs =>
      let next := { system.store with runs := runs }
      if next.requests.rows.all fun row => row.jobRunId.all fun logId => logId ∈ next.runIds then
        some { system with store := next }
      else none

variable {system next : System} {statement : Statement} {status : Status} {change : Request → Request} {store : Store}
  {requestId : Nat} {after : Call}

theorem step_statement {call : Nat} (stepped : step system (.statement call statement) = some next) :
    runStatement system.store (system.calls call) statement = some (next.store, next.calls call) ∧
      ∀ other, other ≠ call → next.calls other = system.calls other := by
  simp only [step, Option.map_eq_some_iff] at stepped
  obtain ⟨⟨store, after⟩, ran, rfl⟩ := stepped
  constructor
  · simpa using ran
  · intro other different
    simp [different]

theorem store_jobRuns {runs : List JobRunEnd} (stepped : step system (.jobRuns runs) = some next) :
    { system with store := { system.store with runs := runs } } = next := by
  rw [step] at stepped
  split at stepped
  · exact Option.some.inj stepped
  · cases stepped

/-! ## What a statement does to the table -/

/-- The request and the status a statement of `claim` writes without asking for the old status. -/
def claimOverwrites : ClaimCall → ClaimStatement → Option (Nat × Status)
  | .selected row ttlSeconds, .update now _ =>
      match now.shift (-(max 1 ttlSeconds)) with
      | none => none
      | some cutoff => if row.requestedAt < isoText cutoff then some (row.requestId, .expired) else none
  | _, _ => none

/-- The request and the status a statement writes without asking for the old status. -/
def overwrites (store : Store) : Call → Statement → Option (Nat × Status)
  | .cancelling requestId _, .cancelUpdate _ => some (requestId, .cancelled)
  | .claiming call, .claim statement => claimOverwrites call statement
  | .expiring _ (requestId :: _) _, .expireUpdate _ => some (requestId, .expired)
  | .idle, .markStarted requestId _ jobRunId =>
      if breaksRun store.requests store.runIds requestId jobRunId then none else some (requestId, .started)
  | .idle, .markDone requestId _ _ => some (requestId, .done)
  | _, _ => none

inductive TableChange (before after : Requests) : Option (Nat × Status) → Prop
  | same : after = before → TableChange before after none
  | queued {row : Request} : before.insert? row = some after → TableChange before after none
  | guarded {requestId : Nat} {required status : Status} {change : Request → Request} :
      KeepsRequest change status → required.isFinal = false →
      write before requestId (some required) change = some after → TableChange before after none
  | overwritten {requestId : Nat} {status : Status} {change : Request → Request} :
      KeepsRequest change status → write before requestId none change = some after →
      TableChange before after (some (requestId, status))

theorem claimStatement_change {requests next : Requests} {call after : ClaimCall} {statement : ClaimStatement}
    (ran : claimStatement requests call statement = some (next, after)) :
    TableChange requests next (claimOverwrites call statement) := by
  rcases claimStatement_cases ran with
    ⟨_, _, rfl, rfl, rfl, _⟩ |
    ⟨_, _, _, _, rfl, rfl, ⟨shifted, rfl, _⟩ | ⟨written, ⟨cutoff, shifted, stale⟩, _⟩ |
      ⟨written, ⟨cutoff, shifted, recent⟩, _⟩⟩ |
    ⟨_, _, rfl, rfl, rfl, _⟩
  · exact .same rfl
  · simpa [claimOverwrites, shifted] using TableChange.same rfl
  · simpa [claimOverwrites, shifted, stale] using TableChange.overwritten (keeps_finished _ _ _) written
  · simpa [claimOverwrites, shifted, recent] using TableChange.guarded (keeps_claimedBy _) rfl written
  · exact .same rfl

/-- An overwrite is committed: nothing refuses it. -/
theorem commit_overwritten (store : Store) (requestId : Nat) (keeps : KeepsRequest change status)
    (queued : status ≠ .pending) (after : Call) :
    ∃ next, write store.requests requestId none change = some next ∧
      store.commit (write store.requests requestId none change) after = ({ store with requests := next }, after) := by
  obtain ⟨next, written⟩ := Option.isSome_iff_exists.mp (write_isSome keeps queued)
  exact ⟨next, written, by simp [Store.commit, written]⟩

theorem commit_change (keeps : KeepsRequest change status) (queued : status ≠ .pending) (after : Call) :
    TableChange store.requests (store.commit (write store.requests requestId none change) after).1.requests
      (some (requestId, status)) := by
  obtain ⟨next, written, committed⟩ := commit_overwritten store requestId keeps queued after
  rw [committed]
  exact .overwritten keeps written

theorem commit_guarded {required : Status} (keeps : KeepsRequest change status) (opened : required.isFinal = false)
    (after : Call) :
    TableChange store.requests
      (store.commit (write store.requests requestId (some required) change) after).1.requests none := by
  cases written : write store.requests requestId (some required) change with
  | none => exact .same rfl
  | some next => exact .guarded keeps opened written

variable {call : Call} {before : Requests} {overwritten : Option (Nat × Status)}

/-- Every statement of the queue reads, queues, moves an open request, or overwrites. -/
theorem runStatement_change {next : Store} (ran : runStatement store call statement = some (next, after)) :
    TableChange store.requests next.requests (overwrites store call statement) := by
  have result {outcome : Store × Call} {overwritten : Option (Nat × Status)}
      (ran : some outcome = some (next, after))
      (change : TableChange store.requests outcome.1.requests overwritten) :
      TableChange store.requests next.requests overwritten := by
    obtain rfl := Option.some.inj ran
    exact change
  have claims {own : ClaimCall} {sent : ClaimStatement}
      (ran : ((claimStatement store.requests own sent).map fun result =>
        (({ store with requests := result.1 } : Store), Call.claiming result.2)) = some (next, after)) :
      TableChange store.requests next.requests (claimOverwrites own sent) := by
    simp only [Option.map_eq_some_iff, Prod.mk.injEq] at ran
    obtain ⟨⟨requests, progress⟩, claimed, rfl, _⟩ := ran
    exact claimStatement_change claimed
  fun_cases runStatement store call statement with
  | case1 | case3 | case7 | case12 => exact result ran (.same rfl)
  | case2 code requestedBy source note requestedAt answeredAt =>
    apply result ran
    simp only [requestInsert]
    split
    · exact .same rfl
    · rename_i queued
      exact .queued queued
  | case4 => exact result ran (commit_change (keeps_finished _ _ _) (by simp) _)
  | case5 sent => exact claims ran
  | case6 => exact claims ran
  | case8 => exact result ran (commit_change (keeps_finished _ _ _) (by simp) _)
  | case9 requestId writtenAt jobRunId =>
    rw [runStatement, markStarted] at ran
    rw [overwrites]
    split at ran
    · next broken => exact result ran (if_pos broken ▸ .same rfl)
    · next held => exact result ran (if_neg held ▸ commit_change (keeps_startedBy _ _) (by simp) _)
  | case10 => exact result ran (commit_change (keeps_finished _ _ _) (by simp) _)
  | case11 => exact result ran (commit_guarded (keeps_released _) rfl _)
  | case13 => exact result ran (commit_guarded (keeps_finished _ _ _) rfl _)
  | case14 =>
    rw [runStatement] at ran
    · cases ran
    all_goals assumption

/-! ## Final statuses -/

def KeepsFinal (before after : Requests) : Prop :=
  ∀ requestId status, statusOf before requestId = some status → status.isFinal = true →
    statusOf after requestId = some status

/-- A statement keeps the final statuses unless it overwrites one with another. -/
theorem keepsFinal_iff {after : Requests} (change : TableChange before after overwritten) :
    KeepsFinal before after ↔ ∀ requestId status, overwritten = some (requestId, status) →
      ∀ old, statusOf before requestId = some old → old.isFinal = true → old = status := by
  cases change with
  | same unchanged =>
    subst unchanged
    constructor
    · intro _ _ _ impossible
      cases impossible
    · intro _ _ _ stands _
      exact stands
  | @queued row accepted =>
    constructor
    · intro _ _ _ impossible
      cases impossible
    · intro _ requestId status stands _
      have fresh := Table.fresh_of_insert? accepted
      rw [statusOf, Table.lookup_insert? accepted]
      split
      · rename_i own
        rw [own] at fresh
        simp [statusOf, fresh] at stands
      · exact stands
  | @guarded written required status change keeps opened accepted =>
    constructor
    · intro _ _ _ impossible
      cases impossible
    · intro _ requestId old stands final
      rw [statusOf_write keeps accepted, stands]
      have moved : ¬ (requestId = written ∧ (some required).all (fun status => decide (old = status)) = true) := by
        rintro ⟨_, meets⟩
        obtain rfl : old = required := by simpa using meets
        simp [opened] at final
      rw [Option.map_some, if_neg moved]
  | @overwritten written status change keeps accepted =>
    constructor
    · intro kept requestId new same old stands final
      obtain ⟨rfl, rfl⟩ := Prod.mk.inj (Option.some.inj same)
      have after := kept written old stands final
      rw [statusOf_write keeps accepted, stands] at after
      simpa using after.symm
    · intro agree requestId old stands final
      rw [statusOf_write keeps accepted, stands]
      rcases eq_or_ne requestId written with rfl | different
      · simp [agree requestId status rfl old stands final]
      · simp [different]

/-- A request whose `cancel_request` returned `True` is cancelled. -/
def CancelledStay (system : System) : Prop :=
  ∀ call requestId, system.calls call = .returned (.cancelled requestId true) →
    statusOf system.store.requests requestId = some .cancelled

/-- The step keeps every final status, and leaves every withdrawn request cancelled. -/
def Absorbing (system : System) (_ : Label) (next : System) : Prop :=
  KeepsFinal system.store.requests next.store.requests ∧ CancelledStay next

/-- An update that asks for no status does not meet a request that has meanwhile reached another
final one. -/
def Guarded (system : System) (label : Label) (_ : System) : Prop :=
  ∀ call statement, label = .statement call statement →
    ∀ requestId status, overwrites system.store (system.calls call) statement = some (requestId, status) →
      ∀ old, statusOf system.store.requests requestId = some old → old.isFinal = true → old = status

theorem keepsFinal_step_iff {label : Label} (stepped : step system label = some next) :
    KeepsFinal system.store.requests next.store.requests ↔ Guarded system label next := by
  cases label with
  | statement call statement =>
    rw [keepsFinal_iff (runStatement_change (step_statement stepped).1)]
    constructor
    · rintro kept _ _ ⟨⟩
      exact kept
    · intro guarded
      exact guarded call statement rfl
  | jobRuns runs =>
    obtain rfl := store_jobRuns stepped
    constructor
    · intro _ _ _ impossible
      cases impossible
    · intro _ _ _ stands _
      exact stands

/-- A request `cancel_request` has read is in the table, and the withdrawn ones are cancelled. -/
structure Withdrawn (system : System) : Prop where
  read : ∀ call requestId actor, system.calls call = .cancelling requestId actor →
    (statusOf system.store.requests requestId).isSome = true
  stays : CancelledStay system

/-- No statement removes a request. -/
theorem statusOf_isSome_change {after : Requests} (change : TableChange before after overwritten)
    (present : (statusOf before requestId).isSome = true) : (statusOf after requestId).isSome = true := by
  cases change with
  | same unchanged =>
    subst unchanged
    exact present
  | queued accepted =>
    rw [statusOf, Table.lookup_insert? accepted]
    split
    · rfl
    · exact present
  | guarded keeps _ accepted => simpa [statusOf_write keeps accepted] using present
  | overwritten keeps accepted => simpa [statusOf_write keeps accepted] using present

def Call.withdraws : Call → Option Nat
  | .cancelling requestId _ => some requestId
  | .returned (.cancelled requestId true) => some requestId
  | _ => none

@[simp]
theorem withdraws_requestSelect (store : Store) (appCommandId requestedBy source note : String) :
    (requestSelect store appCommandId requestedBy source note).withdraws = none := by
  simp only [requestSelect]
  split
  · rfl
  · split <;> rfl

@[simp]
theorem withdraws_requestInsert (store : Store) (code requestedBy source note : String)
    (requestedAt answeredAt : Moment) :
    (requestInsert store code requestedBy source note requestedAt answeredAt).2.withdraws = none := by
  simp only [requestInsert]
  split <;> rfl

@[simp]
theorem withdraws_expireFrom (ttlSeconds : Int) (count : Nat) (remaining : List Nat) :
    (expireFrom ttlSeconds count remaining).withdraws = none := by
  cases remaining <;> rfl

@[simp]
theorem withdraws_expireSelect (store : Store) (ttlSeconds : Int) (now : Moment) :
    (expireSelect store ttlSeconds now).withdraws = none := by
  simp only [expireSelect]
  split
  · rfl
  · simp

@[simp]
theorem withdraws_closeFrom (closed : Nat) (remaining : List (Nat × String)) :
    (closeFrom closed remaining).withdraws = none := by
  cases remaining <;> rfl

theorem withdraws_commit {result : Option Requests} (nothing : after.withdraws = none) :
    (store.commit result after).2.withdraws = none := by
  cases result with
  | none => rfl
  | some next => exact nothing

/-- Only `cancel_request` withdraws: it reads the request, then cancels it. -/
theorem withdraws_cases {next : Store} (ran : runStatement store call statement = some (next, after)) :
    after.withdraws = none ∨
    (∃ requestId actor, after = .cancelling requestId actor ∧ (statusOf store.requests requestId).isSome = true) ∨
    (∃ requestId actor writtenAt, call = .cancelling requestId actor ∧ after = .returned (.cancelled requestId true) ∧
      finish store.requests requestId .cancelled writtenAt (cancelNote actor) = some next.requests) := by
  have result {outcome : Store × Call} (ran : some outcome = some (next, after))
      (nothing : outcome.2.withdraws = none) : after.withdraws = none := by
    obtain rfl := Option.some.inj ran
    exact nothing
  have claims {own : ClaimCall} {sent : ClaimStatement}
      (ran : ((claimStatement store.requests own sent).map fun result =>
        (({ store with requests := result.1 } : Store), Call.claiming result.2)) = some (next, after)) :
      after.withdraws = none := by
    simp only [Option.map_eq_some_iff, Prod.mk.injEq] at ran
    obtain ⟨_, _, _, rfl⟩ := ran
    rfl
  fun_cases runStatement store call statement with
  | case3 requestId actor =>
    simp only [runStatement, Option.some.injEq, Prod.mk.injEq, cancelSelect] at ran
    obtain ⟨rfl, answered⟩ := ran
    cases found : store.requests.lookup requestId with
    | none =>
      rw [found] at answered
      subst answered
      exact Or.inl rfl
    | some row =>
      rw [found] at answered
      simp only at answered
      split at answered
      · exact Or.inr (Or.inl ⟨requestId, actor, answered.symm, by simp [statusOf, found]⟩)
      · subst answered
        exact Or.inl rfl
  | case4 requestId actor writtenAt =>
    obtain ⟨written, accepted, committed⟩ := commit_overwritten store requestId
      (keeps_finished .cancelled writtenAt (cancelNote actor)) (by simp) (.returned (.cancelled requestId true))
    rw [runStatement, finish, committed, Option.some.injEq, Prod.mk.injEq] at ran
    obtain ⟨rfl, rfl⟩ := ran
    exact Or.inr (Or.inr ⟨requestId, actor, writtenAt, rfl, rfl, accepted⟩)
  | case1 => exact Or.inl (result ran (withdraws_requestSelect _ _ _ _ _))
  | case2 => exact Or.inl (result ran (withdraws_requestInsert _ _ _ _ _ _ _))
  | case5 | case6 => exact Or.inl (claims ran)
  | case7 => exact Or.inl (result ran (withdraws_expireSelect _ _ _))
  | case8 => exact Or.inl (result ran (withdraws_commit (withdraws_expireFrom _ _ _)))
  | case9 | case10 | case11 => exact Or.inl (result ran (withdraws_commit rfl))
  | case12 => exact Or.inl (result ran (withdraws_closeFrom _ _))
  | case13 => exact Or.inl (result ran (withdraws_commit (withdraws_closeFrom _ _)))
  | case14 =>
    rw [runStatement] at ran
    · cases ran
    all_goals assumption

theorem withdrawn_step (system : System) (label : Label) (next : System) (stepped : step system label = some next)
    (guarded : Guarded system label next) (withdrawn : Withdrawn system) : Withdrawn next := by
  have kept := (keepsFinal_step_iff stepped).mpr guarded
  cases label with
  | jobRuns runs =>
    obtain rfl := store_jobRuns stepped
    exact ⟨withdrawn.read, withdrawn.stays⟩
  | statement own statement =>
    obtain ⟨ran, others⟩ := step_statement stepped
    have present {requestId : Nat} (before : (statusOf system.store.requests requestId).isSome = true) :
        (statusOf next.store.requests requestId).isSome = true :=
      statusOf_isSome_change (runStatement_change ran) before
    constructor
    · intro call requestId actor cancelling
      rcases eq_or_ne call own with rfl | different
      · rw [cancelling] at ran
        rcases withdraws_cases ran with nothing | ⟨_, _, same, read⟩ | ⟨_, _, _, _, same, _⟩
        · simp [Call.withdraws] at nothing
        · obtain ⟨rfl, rfl⟩ := Call.cancelling.inj same
          exact present read
        · simp at same
      · rw [others call different] at cancelling
        exact present (withdrawn.read call requestId actor cancelling)
    · intro call requestId returned
      rcases eq_or_ne call own with rfl | different
      · rw [returned] at ran
        rcases withdraws_cases ran with nothing | ⟨_, _, same, _⟩ | ⟨_, actor, writtenAt, cancelling, same, accepted⟩
        · simp [Call.withdraws] at nothing
        · simp at same
        · obtain rfl : requestId = _ := by simpa using same
          obtain ⟨old, stands⟩ := Option.isSome_iff_exists.mp (withdrawn.read call requestId actor cancelling)
          simp [statusOf_write (keeps_finished _ _ _) accepted, stands]
      · rw [others call different] at returned
        exact kept requestId .cancelled (withdrawn.stays call requestId returned) rfl

/-- Final statuses are absorbing, and a withdrawn request stays withdrawn, exactly in the runs in which
no unguarded update meets a request that has meanwhile reached another final status. -/
theorem final_statuses_absorbing_iff {start : System} (labels : List Label)
    (fresh : ∀ call, start.calls call = .idle) :
    Every step Absorbing start labels ↔ Every step Guarded start labels := by
  constructor
  · apply Every.imp
    intro system label next stepped absorbing
    exact (keepsFinal_step_iff stepped).mp absorbing.1
  · apply Every.mono withdrawn_step
    · intro system label next stepped withdrawn guarded
      exact ⟨(keepsFinal_step_iff stepped).mpr guarded, (withdrawn_step system label next stepped guarded withdrawn).stays⟩
    · constructor
      · intro call requestId actor cancelling
        simp [fresh call] at cancelling
      · intro call requestId returned
        simp [fresh call] at returned

/-! ## A withdrawal that races with a claim -/

def waiting : System where
  store := { requests := oneWaiting.requests, lastId := 1, runs := [] }
  calls := fun _ => .idle

/-- The console withdraws the request before the daemon looks. -/
def cancelledInTime : List Label :=
  [.statement 0 (.cancelSelect 1 "operator"), .statement 0 (.cancelUpdate noon),
    .statement 1 (.claim (.select "APP-COLLECT" 900))]

theorem final_statuses_absorbing_cancelledInTime :
    (exec step waiting cancelledInTime).isSome = true ∧
      (Every step Absorbing waiting cancelledInTime ↔ Every step Guarded waiting cancelledInTime) :=
  ⟨by decide +kernel, final_statuses_absorbing_iff cancelledInTime fun _ => rfl⟩

/-- The daemon claims the request and inserts its run between the two statements of the withdrawal, then starts it. -/
def cancelledTooLate : List Label :=
  [.statement 0 (.cancelSelect 1 "operator"), .statement 1 (.claim (.select "APP-COLLECT" 900)),
    .statement 1 (.claim (.update noon noon)), .statement 1 (.claim .readBack), .jobRuns [⟨7, "running", none⟩],
    .statement 0 (.cancelUpdate noon), .statement 2 (.markStarted 1 noon (some 7))]

theorem cancelled_request_started :
    ¬ ∀ (start : System) (labels : List Label), (∀ call, start.calls call = .idle) →
      Every step Absorbing start labels := by
  intro absorbing
  have ended : ((exec step waiting cancelledTooLate).map fun final =>
      (final.calls 0, statusOf final.store.requests 1)) =
        some (.returned (.cancelled 1 true), some .started) := by decide +kernel
  obtain ⟨final, run, reached⟩ := Option.map_eq_some_iff.mp ended
  obtain ⟨withdrawn, started⟩ := Prod.mk.inj reached
  have stays : CancelledStay final := by
    apply exec_invariant_of_every _ (absorbing waiting cancelledTooLate fun _ => rfl) _ run
    · intro system label next _ kept _
      exact kept.2
    · intro call requestId returned
      simp [waiting] at returned
  have cancelled := stays 0 1 withdrawn
  rw [started] at cancelled
  simp at cancelled

end DbaBrain.Db.RunRequestLifecycle
