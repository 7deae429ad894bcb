import DbaBrain.Jobs.Daemon

/-!
# What becomes of the requests a scan claims

A claimed request ends the scan started with its run, or back in the queue,
exactly when its start is answered as the scan expects.
-/

namespace DbaBrain.Jobs.ClaimedRequests

open DbaBrain.Foundation DbaBrain.Foundation.Calendar DbaBrain.Foundation.Text
open DbaBrain.Lib.RunClaim
open DbaBrain.Db.JobRuns DbaBrain.Db.RunRequests DbaBrain.Db.RunRequestClaim
open Daemon

/-- The insert is reached, answered, and not refused. -/
def inserts (claimant : Claimant) (start : Start) : Bool :=
  start.turn.start.reachesClaim && !heldElsewhere claimant start.before start.command

/-- `start_app_command` ends by an exception. -/
def raises (start : Start) : Bool :=
  !start.turn.start.reachesClaim || !start.turn.start.eventWrites

/-- No request of the command is queued between the claim and the release. -/
def undisturbed (start : Start) : Bool :=
  start.turn.arrivals.all fun arrival =>
    strip arrival.appCommandId = "" || strip arrival.appCommandId ≠ start.command.appCommandId

/-- The run was inserted and the request marked, or the start raised and the release went through. -/
def settles (claimant : Claimant) (start : Start) : Bool :=
  (inserts claimant start && start.turn.start.markAnswers) ||
    (raises start && start.turn.releaseAnswers && undisturbed start)

/-- The request is back in the queue, or started with the run its start produced. -/
def Settled (world : World) (start : Start) (request : Request) : Prop :=
  ∃ row, world.requests.lookup request.requestId = some row ∧
    (row.status = .pending ∨
      row.status = .started ∧ row.jobRunId = some (start.before.nextLogId : Int) ∧
        ∃ run, world.runs.lookup start.before.nextLogId = some run ∧ run.jobCode = start.command.appCommandId)

/-! ## One start -/

/-- The outcome of a start the scan made. -/
def outcomeOf (claimant : Claimant) (start : Start) : World × StartResult :=
  startAppCommand claimant start.before start.command start.request start.turn.start

theorem requests_outcomeOf (claimant : Claimant) (start : Start) :
    (outcomeOf claimant start).1.requests =
      if inserts claimant start then
        markRunRequestStarted start.before.requests start.request start.before.nextLogId start.turn.start
      else
        start.before.requests := by
  rcases startAppCommand_cases claimant start.before start.command start.request start.turn.start with
    ⟨spawns, outcome⟩ | ⟨spawns, reaches, outcome⟩ | ⟨reaches, held, outcome⟩ | ⟨reaches, free, runs, _, outcome⟩
  · simp [outcomeOf, outcome, inserts, StartCalls.reachesClaim, spawns]
  · simp [outcomeOf, outcome, inserts, reaches]
  · simp only [outcomeOf, outcome, inserts, reaches, held]
    split <;> rfl
  · simp [outcomeOf, outcome, inserts, reaches, free, recorded]

theorem result_outcomeOf (claimant : Claimant) (start : Start) :
    (outcomeOf claimant start).2 = if raises start then .raised else .returned := by
  rcases startAppCommand_cases claimant start.before start.command start.request start.turn.start with
    ⟨spawns, outcome⟩ | ⟨spawns, reaches, outcome⟩ | ⟨reaches, held, outcome⟩ | ⟨reaches, free, runs, _, outcome⟩
  · simp [outcomeOf, outcome, raises, StartCalls.reachesClaim, spawns]
  · simp [outcomeOf, outcome, raises, reaches]
  · cases writes : start.turn.start.eventWrites <;> simp [outcomeOf, outcome, raises, reaches, writes]
  · cases writes : start.turn.start.eventWrites <;> simp [outcomeOf, outcome, raises, reaches, writes]

/-- A start adds at most its own run. -/
theorem runs_outcomeOf (claimant : Claimant) (start : Start) :
    (inserts claimant start = true ∧
      claimRun claimant start.before start.command start.request start.turn.start =
        some (outcomeOf claimant start).1.runs) ∨
    (inserts claimant start = false ∧ (outcomeOf claimant start).1.runs = start.before.runs) := by
  rcases startAppCommand_cases claimant start.before start.command start.request start.turn.start with
    ⟨spawns, outcome⟩ | ⟨spawns, reaches, outcome⟩ | ⟨reaches, held, outcome⟩ | ⟨reaches, free, runs, claimed, outcome⟩
  · exact Or.inr ⟨by simp [inserts, StartCalls.reachesClaim, spawns], by simp [outcomeOf, outcome]⟩
  · exact Or.inr ⟨by simp [inserts, reaches], by simp [outcomeOf, outcome]⟩
  · refine Or.inr ⟨by simp [inserts, held], ?_⟩
    simp only [outcomeOf, outcome]
    split <;> rfl
  · exact Or.inl ⟨by simp [inserts, reaches, free], by simpa [outcomeOf, outcome, recorded] using claimed⟩

/-! ## The arrivals and the release -/

theorem runs_requestRun (world : World) (arrival : Arrival) : (requestRun world arrival).runs = world.runs := by
  simp only [requestRun]
  split
  · rfl
  · split <;> rfl

theorem runs_arrivals (world : World) (arrivals : List Arrival) :
    (arrivals.foldl requestRun world).runs = world.runs := by
  induction arrivals generalizing world with
  | nil => rfl
  | cons arrival rest ih => rw [List.foldl_cons, ih, runs_requestRun]

variable {world : World} {requestId : Nat} {row : Request} {requests : Requests} {turn : Turn} {start : Start}
  {request : Request}

theorem lookup_requestRun (found : world.requests.lookup requestId = some row) (arrival : Arrival) :
    (requestRun world arrival).requests.lookup requestId = some row := by
  simp only [requestRun]
  split
  · exact found
  · split
    · exact found
    · rename_i accepted
      exact Table.lookup_insert?_of_found accepted found

theorem lookup_arrivals (found : world.requests.lookup requestId = some row) (arrivals : List Arrival) :
    (arrivals.foldl requestRun world).requests.lookup requestId = some row := by
  induction arrivals generalizing world with
  | nil => exact found
  | cons arrival rest ih => exact ih (lookup_requestRun found arrival)

/-- A command has none waiting after an arrival when it had none and the arrival is another's. -/
theorem pendingFor_requestRun (world : World) (arrival : Arrival) (appCommandId : String) :
    pendingFor (requestRun world arrival).requests appCommandId = none ↔
      pendingFor world.requests appCommandId = none ∧
        (strip arrival.appCommandId = "" ∨ strip arrival.appCommandId ≠ appCommandId) := by
  simp only [requestRun]
  split
  · rename_i blank
    simp [blank]
  · rename_i named
    split
    · rename_i refused
      -- Refused for a request of the arrival's own command that waits already.
      have waits : pendingFor world.requests (strip arrival.appCommandId) ≠ none := by
        intro free
        have accepted : (insertRequest world.requests (world.requests.nextKey world.lastRequestId)
            (strip arrival.appCommandId) arrival.requestedBy arrival.source arrival.at_ arrival.note).isSome = true :=
          insertRequest_isSome_iff.mpr ⟨world.requests.lookup_nextKey world.lastRequestId, free⟩
        simp [refused] at accepted
      constructor
      · intro free
        refine ⟨free, Or.inr ?_⟩
        rintro rfl
        exact waits free
      · exact And.left
    · rename_i accepted
      have rows := Table.rows_of_insert? accepted
      simp only [pendingFor_eq_none_iff, rows, List.mem_append, List.mem_singleton]
      constructor
      · intro free
        refine ⟨fun row member => free row (Or.inl member), Or.inr ?_⟩
        intro same
        exact free _ (Or.inr rfl) same rfl
      · rintro ⟨free, blank | different⟩ row (member | rfl) same
        · exact free row member same
        · exact absurd blank named
        · exact free row member same
        · exact absurd same different

theorem pendingFor_arrivals (world : World) (arrivals : List Arrival) (appCommandId : String) :
    pendingFor (arrivals.foldl requestRun world).requests appCommandId = none ↔
      pendingFor world.requests appCommandId = none ∧
        ∀ arrival ∈ arrivals, strip arrival.appCommandId = "" ∨ strip arrival.appCommandId ≠ appCommandId := by
  induction arrivals generalizing world with
  | nil => simp
  | cons arrival rest ih =>
    rw [List.foldl_cons, ih, pendingFor_requestRun, List.forall_mem_cons, and_assoc]

theorem lookup_releaseRunRequest_of_ne {request : Option Request} {other : Nat}
    (different : ∀ row, request = some row → other ≠ row.requestId) :
    (releaseRunRequest requests request turn).lookup other = requests.lookup other := by
  cases request with
  | none => rfl
  | some row =>
    simp only [releaseRunRequest]
    split
    · cases written : release requests row.requestId releaseNote with
      | none => rfl
      | some next => exact lookup_write_of_ne (keeps_released _) written (different row rfl)
    · rfl

/-- The release puts a claimed request back unless the store fails or another of its command waits. -/
theorem lookup_releaseRunRequest {present : Request} (found : requests.lookup row.requestId = some present) :
    (releaseRunRequest requests (some row) turn).lookup row.requestId =
      some (if turn.releaseAnswers = true ∧ present.status = .claimed ∧
          pendingFor requests present.appCommandId = none then
        released releaseNote present
      else
        present) := by
  cases answers : turn.releaseAnswers with
  | false => simpa [releaseRunRequest, answers] using found
  | true =>
    have own := Table.key_of_lookup found
    rw [releaseRunRequest, answers, if_pos rfl]
    by_cases claimed : present.status = .claimed
    · have accepts : (release requests row.requestId releaseNote).isSome = true ↔
          pendingFor requests present.appCommandId = none := by
        rw [← own] at found ⊢
        exact release_isSome_iff found claimed
      cases written : release requests row.requestId releaseNote with
      | none =>
        rw [written] at accepts
        have waits : ¬ pendingFor requests present.appCommandId = none := by simpa using accepts
        simp [waits, found]
      | some next =>
        rw [written] at accepts
        have free : pendingFor requests present.appCommandId = none := by simpa using accepts
        have done := lookup_write_self (keeps_released releaseNote) written found (by simp [claimed])
        simp [free, claimed, done]
    · cases written : release requests row.requestId releaseNote with
      | none => simp [claimed, found]
      | some next => simp [claimed, lookup_write (keeps_released _) written, found]

/-! ## One turn of the scan -/

/-- The runs only gain rows. -/
def KeepsRuns (before after : World) : Prop :=
  ∀ logId run, before.runs.lookup logId = some run → after.runs.lookup logId = some run

theorem KeepsRuns.trans {first middle last : World} (earlier : KeepsRuns first middle)
    (later : KeepsRuns middle last) : KeepsRuns first last :=
  fun logId run found => later logId run (earlier logId run found)

theorem keepsRuns_insertJobRun {before after : World} {logId : Nat} {createdAt : String} {claimant : Claimant}
    {item : JobRun} (inserted : insertJobRun before.runs logId createdAt claimant item = some after.runs) :
    KeepsRuns before after := by
  intro other run found
  exact Table.lookup_insert?_of_found inserted found

theorem keepsRuns_recordStartFailure (claimant : Claimant) (world : World) (command : AppCommand) (turn : Turn) :
    KeepsRuns world (recordStartFailure claimant world command turn) := by
  simp only [recordStartFailure]
  split
  · split
    · exact fun _ _ found => found
    · rename_i inserted
      exact keepsRuns_insertJobRun inserted
  · exact fun _ _ found => found

@[simp]
theorem requests_recordStartFailure (claimant : Claimant) (world : World) (command : AppCommand) (turn : Turn) :
    (recordStartFailure claimant world command turn).requests = world.requests := by
  simp only [recordStartFailure]
  split
  · split <;> rfl
  · rfl

def turnOf (claimant : Claimant) (start : Start) : TurnResult :=
  startTurn claimant start.before start.command start.request start.turn

theorem start_turnOf (claimant : Claimant) (start : Start) : (turnOf claimant start).start = some start := by
  simp only [turnOf, startTurn]
  split
  · rfl
  · split <;> rfl

def afterArrivals (claimant : Claimant) (start : Start) : World :=
  start.turn.arrivals.foldl requestRun (outcomeOf claimant start).1

theorem requests_turnOf (claimant : Claimant) (start : Start) :
    (turnOf claimant start).world.requests =
      if raises start then
        releaseRunRequest (afterArrivals claimant start).requests start.request start.turn
      else
        (afterArrivals claimant start).requests := by
  have result := result_outcomeOf claimant start
  simp only [turnOf, startTurn, afterArrivals, outcomeOf] at result ⊢
  cases failed : raises start with
  | false =>
    simp only [failed] at result
    rw [result]
    rfl
  | true =>
    simp only [failed] at result
    rw [result]
    cases start.turn.start.storeTrouble with
    | false => exact requests_recordStartFailure _ _ _ _
    | true => rfl

theorem keepsRuns_turnOf (claimant : Claimant) (start : Start) :
    KeepsRuns (outcomeOf claimant start).1 (turnOf claimant start).world := by
  have arrived : KeepsRuns (outcomeOf claimant start).1 (afterArrivals claimant start) := by
    intro logId run found
    rw [afterArrivals, runs_arrivals, found]
  simp only [turnOf, startTurn]
  split
  · exact arrived
  · split
    · exact arrived
    · intro logId run found
      exact keepsRuns_recordStartFailure _ _ _ _ logId run (arrived logId run found)

/-- A start the scan makes for a request it has just claimed. -/
structure Claims (start : Start) (request : Request) : Prop where
  asked : start.request = some request
  found : start.before.requests.lookup request.requestId = some request
  claimed : request.status = .claimed
  command : request.appCommandId = start.command.appCommandId
  alone : pendingFor start.before.requests request.appCommandId = none

def afterTurn (claimant : Claimant) (start : Start) (request : Request) : Request :=
  if inserts claimant start && start.turn.start.markAnswers then
    startedBy start.turn.start.markedAt (some (start.before.nextLogId : Int)) request
  else if raises start && start.turn.releaseAnswers && undisturbed start then
    released releaseNote request
  else
    request

theorem appCommandId_afterTurn (claimant : Claimant) (start : Start) (request : Request) :
    (afterTurn claimant start request).appCommandId = request.appCommandId := by
  simp only [afterTurn]
  split
  · rfl
  · split <;> rfl

theorem lookup_turnOf (claimant : Claimant) (claims : Claims start request) :
    (turnOf claimant start).world.requests.lookup request.requestId = some (afterTurn claimant start request) := by
  have requests := requests_outcomeOf claimant start
  rw [requests_turnOf, claims.asked, afterTurn]
  cases marked : inserts claimant start && start.turn.start.markAnswers with
  | true =>
    obtain ⟨inserted, answers⟩ := Bool.and_eq_true_iff.mp marked
    -- The mark stands: the release asks for a claimed request.
    have started : (outcomeOf claimant start).1.requests.lookup request.requestId =
        some (startedBy start.turn.start.markedAt (some (start.before.nextLogId : Int)) request) := by
      rw [requests, if_pos inserted, claims.asked, markRunRequestStarted, if_pos answers]
      have some_write : (write start.before.requests request.requestId none
          (startedBy start.turn.start.markedAt (some (start.before.nextLogId : Int)))).isSome = true :=
        write_isSome (keeps_startedBy _ _) (by simp)
      obtain ⟨next, written⟩ := Option.isSome_iff_exists.mp some_write
      rw [markStarted_of_mem (List.mem_singleton_self _), written]
      exact lookup_write_self (keeps_startedBy _ _) written claims.found rfl
    have arrived : (afterArrivals claimant start).requests.lookup request.requestId =
        some (startedBy start.turn.start.markedAt (some (start.before.nextLogId : Int)) request) :=
      lookup_arrivals started start.turn.arrivals
    rw [if_pos rfl]
    split
    · rw [lookup_releaseRunRequest arrived]
      simp [startedBy]
    · exact arrived
  | false =>
    have kept : (outcomeOf claimant start).1.requests = start.before.requests := by
      rw [requests]
      split
      · rename_i inserted
        rw [inserted, Bool.true_and] at marked
        simp [claims.asked, markRunRequestStarted, marked]
      · rfl
    have arrived : (afterArrivals claimant start).requests.lookup request.requestId = some request := by
      apply lookup_arrivals
      rw [kept, claims.found]
    have free : pendingFor (afterArrivals claimant start).requests request.appCommandId = none ↔
        undisturbed start = true := by
      rw [afterArrivals, pendingFor_arrivals, kept, claims.command]
      simp only [← claims.command, claims.alone, true_and]
      simp [undisturbed, claims.command]
    cases failed : raises start with
    | false => simp [arrived]
    | true =>
      rw [if_pos rfl, lookup_releaseRunRequest arrived]
      simp [free, claims.claimed]

/-- A request is settled, in any later world that keeps it and the runs, exactly when its start is
answered so. -/
theorem settled_iff_settles (claimant : Claimant) {final : World} (claims : Claims start request)
    (kept : final.requests.lookup request.requestId = some (afterTurn claimant start request))
    (grown : KeepsRuns (turnOf claimant start).world final) :
    Settled final start request ↔ settles claimant start = true := by
  cases marked : inserts claimant start && start.turn.start.markAnswers with
  | true =>
    obtain ⟨inserted, _⟩ := Bool.and_eq_true_iff.mp marked
    have started : afterTurn claimant start request =
        startedBy start.turn.start.markedAt (some (start.before.nextLogId : Int)) request := by
      simp [afterTurn, marked]
    rw [settles, marked, Bool.true_or, eq_self, iff_true]
    refine ⟨_, kept, Or.inr ⟨by simp [started, startedBy], by simp [started, startedBy], ?_⟩⟩
    rcases runs_outcomeOf claimant start with ⟨_, claimed⟩ | ⟨refused, _⟩
    · have own : (outcomeOf claimant start).1.runs.lookup start.before.nextLogId = some _ :=
        Table.lookup_insert?_self claimed
      exact ⟨_, grown _ _ (keepsRuns_turnOf claimant start _ _ own), rfl⟩
    · simp [inserted] at refused
  | false =>
    rw [settles, marked, Bool.false_or]
    cases freed : raises start && start.turn.releaseAnswers && undisturbed start with
    | true => simp [Settled, kept, afterTurn, marked, freed, released]
    | false => simp [Settled, kept, afterTurn, marked, freed, claims.claimed]

/-! ## The other commands' turns -/

/-- A turn leaves the requests of the other commands as they are. -/
theorem lookup_turnOf_of_ne (claimant : Claimant) (found : start.before.requests.lookup requestId = some row)
    (different : ∀ request, start.request = some request → requestId ≠ request.requestId) :
    (turnOf claimant start).world.requests.lookup requestId = some row := by
  have outcome : (outcomeOf claimant start).1.requests.lookup requestId = some row := by
    rw [requests_outcomeOf]
    split
    · cases asked : start.request with
      | none => simpa [markRunRequestStarted] using found
      | some request =>
        simp only [markRunRequestStarted]
        split
        · rw [markStarted_of_mem (List.mem_singleton_self _)]
          cases written : write start.before.requests request.requestId none
              (startedBy start.turn.start.markedAt (some (start.before.nextLogId : Int))) with
          | none => exact found
          | some next =>
            have same := lookup_write_of_ne (keeps_startedBy _ _) written (different request asked)
            rw [Option.getD_some, same, found]
        · exact found
    · exact found
  have arrived : (afterArrivals claimant start).requests.lookup requestId = some row :=
    lookup_arrivals outcome start.turn.arrivals
  rw [requests_turnOf]
  split
  · rw [lookup_releaseRunRequest_of_ne different, arrived]
  · exact arrived

/-- A command's claim touches the requests of that command alone. -/
theorem lookup_claimRunRequest {appCommandId : String} (found : requests.lookup requestId = some row)
    (different : row.appCommandId ≠ appCommandId) :
    (claimRunRequest requests appCommandId turn).1.lookup requestId = some row := by
  simp only [claimRunRequest]
  split
  · rcases claim_cases requests appCommandId defaultRequestTtlSeconds turn.claimNow turn.claimWrittenAt with
      ⟨unchanged, _⟩ | ⟨waiting, pending, ⟨written, _⟩ | ⟨written, _⟩⟩
    · rw [unchanged, found]
    all_goals
      obtain ⟨present, command, _⟩ := pendingFor_eq_some pending
      have other : requestId ≠ waiting.requestId := by
        rintro rfl
        obtain rfl := Option.some.inj (found.symm.trans present)
        exact different command
    · rw [lookup_write_of_ne (keeps_finished _ _ _) written other, found]
    · rw [lookup_write_of_ne (keeps_claimedBy _) written other, found]
  · exact found

variable {command : AppCommand}

theorem claims_of_claimRunRequest (handed : (claimRunRequest world.requests command.appCommandId turn).2 = some request) :
    Claims ⟨{ world with requests := (claimRunRequest world.requests command.appCommandId turn).1 }, command,
      some request, turn⟩ request := by
  simp only [claimRunRequest] at handed ⊢
  split at handed
  · rename_i answers
    rw [if_pos answers]
    rcases claim_cases world.requests command.appCommandId defaultRequestTtlSeconds turn.claimNow turn.claimWrittenAt with
      ⟨_, nothing⟩ | ⟨waiting, pending, ⟨_, nothing⟩ | ⟨written, taken⟩⟩
    · simp [nothing] at handed
    · simp [nothing] at handed
    · obtain ⟨present, command, waits⟩ := pendingFor_eq_some pending
      obtain rfl := Option.some.inj (taken.symm.trans handed)
      refine ⟨rfl, ?_, rfl, command, ?_⟩
      · exact lookup_write_self (keeps_claimedBy _) written present (by simp [waits])
      · exact (congrArg (pendingFor _) command).trans (pendingFor_setClaimed pending written)
  · simp at handed

/-- What one command's turn is: no start, or the turn of the start it reports. -/
theorem scanCommand_cases (claimant : Claimant) (singlePass : Bool) (requested : String → Bool) (world : World)
    (command : AppCommand) (turn : Turn) :
    (∃ requests, (requests = world.requests ∨
        requests = (claimRunRequest world.requests command.appCommandId turn).1) ∧
      scanCommand claimant singlePass requested world command turn = skip { world with requests := requests }) ∨
    (∃ start, scanCommand claimant singlePass requested world command turn = turnOf claimant start ∧
      mayStart command.runMode (countInFlight world.running command.appCommandId) = true ∧
      start.command = command ∧ start.turn = turn ∧
        ((start.before = world ∧ start.request = none) ∨
          start.before = { world with requests := (claimRunRequest world.requests command.appCommandId turn).1 } ∧
          ∃ request, start.request = some request ∧
            (claimRunRequest world.requests command.appCommandId turn).2 = some request)) := by
  simp only [scanCommand]
  split
  · exact Or.inl ⟨world.requests, Or.inl rfl, rfl⟩
  · split
    · exact Or.inl ⟨world.requests, Or.inl rfl, rfl⟩
    · rename_i may
      rw [Bool.not_eq_true', Bool.not_eq_false] at may
      split
      · split
        · exact Or.inl ⟨_, Or.inr rfl, rfl⟩
        · rename_i request handed
          exact Or.inr ⟨⟨_, command, some request, turn⟩, rfl, may, rfl, rfl, Or.inr ⟨rfl, request, rfl, handed⟩⟩
      · split
        · exact Or.inr ⟨⟨world, command, none, turn⟩, rfl, may, rfl, rfl, Or.inl ⟨rfl, rfl⟩⟩
        · exact Or.inl ⟨world.requests, Or.inl rfl, rfl⟩

theorem keepsRuns_start (claimant : Claimant) (start : Start) :
    KeepsRuns start.before (turnOf claimant start).world := by
  intro logId run found
  apply keepsRuns_turnOf claimant start
  rcases runs_outcomeOf claimant start with ⟨_, claimed⟩ | ⟨_, unchanged⟩
  · exact Table.lookup_insert?_of_found claimed found
  · rw [unchanged, found]

theorem keepsRuns_scanCommand (claimant : Claimant) (singlePass : Bool) (requested : String → Bool) (world : World)
    (command : AppCommand) (turn : Turn) :
    KeepsRuns world (scanCommand claimant singlePass requested world command turn).world := by
  rcases scanCommand_cases claimant singlePass requested world command turn with
    ⟨_, _, skipped⟩ | ⟨start, made, _, _, _, ⟨rfl, _⟩ | ⟨before, _⟩⟩
  · rw [skipped]
    exact fun _ _ found => found
  · rw [made]
    exact keepsRuns_start claimant start
  · rw [made]
    intro logId run found
    apply keepsRuns_start claimant start
    rw [before]
    exact found

theorem lookup_scanCommand (claimant : Claimant) (singlePass : Bool) (requested : String → Bool) (turn : Turn)
    (found : world.requests.lookup requestId = some row) (different : row.appCommandId ≠ command.appCommandId) :
    (scanCommand claimant singlePass requested world command turn).world.requests.lookup requestId = some row := by
  have claimed : (claimRunRequest world.requests command.appCommandId turn).1.lookup requestId = some row :=
    lookup_claimRunRequest found different
  rcases scanCommand_cases claimant singlePass requested world command turn with
    ⟨_, rfl | rfl, skipped⟩ | ⟨start, made, _, _, _, ⟨rfl, none_asked⟩ | ⟨before, request, asked, handed⟩⟩
  · rw [skipped]
    exact found
  · rw [skipped]
    exact claimed
  · rw [made]
    apply lookup_turnOf_of_ne claimant found
    simp [none_asked]
  · rw [made]
    apply lookup_turnOf_of_ne claimant (before ▸ claimed)
    intro own same
    obtain rfl := Option.some.inj (asked.symm.trans same)
    have claims := claims_of_claimRunRequest handed
    rintro rfl
    obtain rfl := Option.some.inj (claimed.symm.trans claims.found)
    exact different claims.command

/-! ## The whole scan -/

section Scan

variable {claimant : Claimant} {singlePass : Bool} {requested : String → Bool}
variable {commands : List (AppCommand × Turn)}

theorem scanCommands_frame (others : ∀ pair ∈ commands, row.appCommandId ≠ pair.1.appCommandId)
    (found : world.requests.lookup requestId = some row) :
    (scanCommands claimant singlePass requested world commands).1.requests.lookup requestId = some row ∧
      KeepsRuns world (scanCommands claimant singlePass requested world commands).1 := by
  induction commands generalizing world with
  | nil => exact ⟨found, fun _ _ present => present⟩
  | cons pair rest ih =>
    obtain ⟨command, turn⟩ := pair
    have kept := lookup_scanCommand claimant singlePass requested turn found (others (command, turn) (by simp))
    have grown := keepsRuns_scanCommand claimant singlePass requested world command turn
    simp only [scanCommands]
    split
    · exact ⟨kept, grown⟩
    · obtain ⟨later, more⟩ := ih (fun other member => others other (List.mem_cons_of_mem _ member)) kept
      exact ⟨later, grown.trans more⟩

/-- Each request the loop claims ends it settled exactly when its start is answered so. -/
theorem scanCommands_settled (nodup : (commands.map fun pair => pair.1.appCommandId).Nodup) :
    ∀ start ∈ (scanCommands claimant singlePass requested world commands).2, ∀ request,
      start.request = some request →
        (Settled (scanCommands claimant singlePass requested world commands).1 start request ↔
          settles claimant start = true) := by
  induction commands generalizing world with
  | nil => simp [scanCommands]
  | cons pair rest ih =>
    obtain ⟨command, turn⟩ := pair
    rw [List.map_cons, List.nodup_cons] at nodup
    have apart : ∀ other ∈ rest, command.appCommandId ≠ other.1.appCommandId := by
      intro other member same
      exact nodup.1 (List.mem_map.mpr ⟨other, member, same.symm⟩)
    -- The head's own start, read again after any later state that keeps its request and runs.
    have head (final : World) (later : ∀ requestId row, row.appCommandId = command.appCommandId →
          (scanCommand claimant singlePass requested world command turn).world.requests.lookup requestId = some row →
            final.requests.lookup requestId = some row ∧
            KeepsRuns (scanCommand claimant singlePass requested world command turn).world final)
        (start : Start)
        (made : start ∈ (scanCommand claimant singlePass requested world command turn).start.toList)
        (request : Request) (asked : start.request = some request) :
        Settled final start request ↔ settles claimant start = true := by
      rcases scanCommand_cases claimant singlePass requested world command turn with
        ⟨_, _, skipped⟩ | ⟨own, turned, _, rfl, rfl, ⟨_, nobody⟩ | ⟨before, handedTo, askedFor, handed⟩⟩
      · simp [skipped, skip] at made
      · rw [turned, start_turnOf] at made
        obtain rfl : start = own := by simpa using made
        simp [nobody] at asked
      · rw [turned, start_turnOf] at made
        obtain rfl : start = own := by simpa using made
        obtain rfl := Option.some.inj (askedFor.symm.trans asked)
        have claims : Claims start handedTo := by
          have claimed := claims_of_claimRunRequest handed
          rw [← before, ← asked] at claimed
          exact claimed
        rw [turned] at later
        obtain ⟨kept, grown⟩ := later _ _ ((appCommandId_afterTurn _ _ _).trans claims.command)
          (lookup_turnOf claimant claims)
        exact settled_iff_settles claimant claims kept grown
    simp only [scanCommands]
    split
    · intro start made request asked
      exact head _ (fun _ _ _ found => ⟨found, fun _ _ present => present⟩) start made request asked
    · intro start made request asked
      rcases List.mem_append.mp made with own | others
      · apply head _ _ start own request asked
        intro requestId row same found
        exact scanCommands_frame (fun other member => same ▸ apart other member) found
      · exact ih nodup.2 start others request asked

end Scan

/-- A request a scan claims ends it started with the run it produced, or back in the queue, exactly
when its start settles it. -/
theorem claimed_requests_settled_iff (claimant : Claimant) (world : World) (input : ScanInput) :
    ∀ start ∈ (runSchedulerScan claimant world input).2, ∀ request, start.request = some request →
      (Settled (runSchedulerScan claimant world input).1 start request ↔ settles claimant start = true) := by
  simp only [runSchedulerScan]
  split
  · exact scanCommands_settled input.ids_nodup
  · simp

/-! ## A claim refused by a second daemon -/

def answered : StartCalls where
  spawns := true
  markerReads := true
  insertAnswers := true
  stops := true
  markAnswers := true
  eventWrites := true
  storeTrouble := false
  startedAt := noon
  createdAt := noon
  markedAt := noon

def collectCommand : AppCommand where
  appCommandId := "APP-COLLECT"
  runMode := ⟨.sync, 1⟩
  timeoutDisabled := false
  timeoutSeconds := 300

def oneCommand : ScanInput where
  singlePass := false
  calls :=
    { collect := fun _ =>
        { overran := false, stops := true, returncode := 0, elapsedMs := 0, errorText := none, finishedAt := noon,
          updateAnswers := true, doneAnswers := true }
      latestAnswers := true, expireAnswers := true, expireNow := noon, expiredAt := noon, closeAnswers := true,
      closedAt := noon, openAnswers := true }
  commands :=
    [(collectCommand,
      { scheduled := false, claimAnswers := true, claimNow := noon, claimWrittenAt := noon, start := answered,
        arrivals := [], releaseAnswers := true, recordAnswers := true, reason := "", failedAt := noon })]
  ids_nodup := by simp

def thisDaemon : Claimant := ⟨4711, "node-a", ""⟩

def idleWorld : World where
  requests := oneWaiting.requests
  lastRequestId := 1
  runs := Table.empty
  lastLogId := 0
  running := []
  children := []

theorem claimed_request_settled_idleWorld :
    ∃ start ∈ (runSchedulerScan thisDaemon idleWorld oneCommand).2, ∃ request, start.request = some request ∧
      Settled (runSchedulerScan thisDaemon idleWorld oneCommand).1 start request := by
  have made : ((runSchedulerScan thisDaemon idleWorld oneCommand).2.map fun start =>
      (start.request.isSome, settles thisDaemon start)) = [(true, true)] := by decide +kernel
  obtain ⟨start, _, starts, both, _⟩ := List.map_eq_cons_iff.mp made
  obtain ⟨asked, settled⟩ := Prod.mk.inj both
  obtain ⟨request, forRequest⟩ := Option.isSome_iff_exists.mp asked
  have member : start ∈ (runSchedulerScan thisDaemon idleWorld oneCommand).2 := by simp [starts]
  refine ⟨start, member, request, forRequest, ?_⟩
  exact (claimed_requests_settled_iff thisDaemon idleWorld oneCommand start member request forRequest).mpr settled

/-- The same, while a second daemon of the host has the command running. -/
def heldWorld : World :=
  { idleWorld with
    runs :=
      { rows :=
          [{ logId := 1, createdAt := "2026-09-19T08:00:00Z", startedAt := some "2026-09-19T08:00:00Z",
             finishedAt := none, jobCode := "APP-COLLECT", level := "logging", status := "running",
             message := "App command APP-COLLECT started.", durationMs := none, errorText := none,
             hostName := some "node-a", claimKey := some "APP-COLLECT", metadata := Metadata.empty }]
        keys_nodup := by simp
        index_nodup := by decide +kernel }
    lastLogId := 1 }

theorem refused_claim_strands_request :
    ¬ ∀ (claimant : Claimant) (world : World) (input : ScanInput),
      ∀ start ∈ (runSchedulerScan claimant world input).2, ∀ request, start.request = some request →
        Settled (runSchedulerScan claimant world input).1 start request := by
  intro settled
  have made : ((runSchedulerScan thisDaemon heldWorld oneCommand).2.map fun start =>
      start.request.map Request.requestId) = [some 1] := by decide +kernel
  obtain ⟨start, _, starts, asked, _⟩ := List.map_eq_cons_iff.mp made
  obtain ⟨request, forRequest, number⟩ := Option.map_eq_some_iff.mp asked
  have member : start ∈ (runSchedulerScan thisDaemon heldWorld oneCommand).2 := by simp [starts]
  obtain ⟨row, found, status⟩ := settled thisDaemon heldWorld oneCommand start member request forRequest
  have left : ((runSchedulerScan thisDaemon heldWorld oneCommand).1.requests.lookup 1).map Request.status =
      some .claimed := by decide +kernel
  rw [number] at found
  rw [found, Option.map_some, Option.some.injEq] at left
  simp [left] at status

end DbaBrain.Jobs.ClaimedRequests
