import DbaBrain.Db.RunRequests
import DbaBrain.Foundation.Execution

/-!
# Concurrent claims of run requests

`claim` reads the pending request of a command, then expires it or runs the
guarded update, then reads the request back.  Any number of calls interleave
their statements on one table.
-/

namespace DbaBrain.Db.RunRequestClaim

open DbaBrain.Foundation DbaBrain.Foundation.Calendar DbaBrain.Foundation.Execution
open RunRequests

/-- How far one call of `claim` has come; `taken` says its guarded update changed the row. -/
inductive ClaimCall
  | idle
  | selected (row : Request) (ttlSeconds : Int)
  | updated (requestId : Nat) (taken : Bool)
  | returned (taken : Bool) (row : Option Request)
  | raised
  deriving DecidableEq

/-- The statements of `claim`, each with the clocks it reads. -/
inductive ClaimStatement
  | select (appCommandId : String) (ttlSeconds : Int)
  | update (now : Moment) (writtenAt : Moment)
  | readBack
  deriving DecidableEq

/-- The note of a request `claim` expires. -/
def notPickedUp (ttlSeconds : Int) : String :=
  "Not picked up within " ++ toString ttlSeconds ++ "s; the daemon was not running."

def claimStatement (requests : Requests) : ClaimCall → ClaimStatement → Option (Requests × ClaimCall)
  | .idle, .select appCommandId ttlSeconds =>
      match pendingFor requests appCommandId with
      | none => some (requests, .returned false none)
      | some row => some (requests, .selected row ttlSeconds)
  | .selected row ttlSeconds, .update now writtenAt =>
      match now.shift (-(max 1 ttlSeconds)) with
      | none => some (requests, .raised)
      | some cutoff =>
          if row.requestedAt < isoText cutoff then
            (finish requests row.requestId .expired writtenAt (notPickedUp ttlSeconds)).map fun next =>
              (next, .returned false none)
          else
            (setClaimed requests row.requestId writtenAt).map fun next =>
              (next, .updated row.requestId
                ((requests.lookup row.requestId).any fun present => present.status = .pending))
  | .updated requestId taken, .readBack =>
      some (requests, .returned taken ((requests.lookup requestId).filter fun row => row.status = .claimed))
  | _, _ => none

variable {requests next : Requests} {call after : ClaimCall} {statement : ClaimStatement}

/-- What a statement of `claim` can do. -/
theorem claimStatement_cases (ran : claimStatement requests call statement = some (next, after)) :
    (∃ appCommandId ttlSeconds, call = .idle ∧ statement = .select appCommandId ttlSeconds ∧ next = requests ∧
      (after = .returned false none ∨
        ∃ row, pendingFor requests appCommandId = some row ∧ after = .selected row ttlSeconds)) ∨
    (∃ row ttlSeconds now writtenAt, call = .selected row ttlSeconds ∧ statement = .update now writtenAt ∧
      ((now.shift (-(max 1 ttlSeconds)) = none ∧ next = requests ∧ after = .raised) ∨
        (finish requests row.requestId .expired writtenAt (notPickedUp ttlSeconds) = some next ∧
          (∃ cutoff, now.shift (-(max 1 ttlSeconds)) = some cutoff ∧ row.requestedAt < isoText cutoff) ∧
          after = .returned false none) ∨
        (setClaimed requests row.requestId writtenAt = some next ∧
          (∃ cutoff, now.shift (-(max 1 ttlSeconds)) = some cutoff ∧ ¬ row.requestedAt < isoText cutoff) ∧
          after = .updated row.requestId
            ((requests.lookup row.requestId).any fun present => present.status = .pending)))) ∨
    (∃ requestId taken, call = .updated requestId taken ∧ statement = .readBack ∧ next = requests ∧
      after = .returned taken ((requests.lookup requestId).filter fun row => row.status = .claimed)) := by
  cases call with
  | idle =>
    cases statement with
    | select appCommandId ttlSeconds =>
      refine Or.inl ⟨appCommandId, ttlSeconds, rfl, rfl, ?_⟩
      cases found : pendingFor requests appCommandId with
      | none =>
        simp only [claimStatement, found, Option.some.injEq, Prod.mk.injEq] at ran
        exact ⟨ran.1.symm, Or.inl ran.2.symm⟩
      | some row =>
        simp only [claimStatement, found, Option.some.injEq, Prod.mk.injEq] at ran
        exact ⟨ran.1.symm, Or.inr ⟨row, rfl, ran.2.symm⟩⟩
    | update => simp [claimStatement] at ran
    | readBack => simp [claimStatement] at ran
  | selected row ttlSeconds =>
    cases statement with
    | select => simp [claimStatement] at ran
    | update now writtenAt =>
      refine Or.inr (Or.inl ⟨row, ttlSeconds, now, writtenAt, rfl, rfl, ?_⟩)
      cases shifted : now.shift (-(max 1 ttlSeconds)) with
      | none =>
        simp only [claimStatement, shifted, Option.some.injEq, Prod.mk.injEq] at ran
        exact Or.inl ⟨rfl, ran.1.symm, ran.2.symm⟩
      | some cutoff =>
        simp only [claimStatement, shifted] at ran
        split at ran
        · rename_i stale
          simp only [Option.map_eq_some_iff, Prod.mk.injEq] at ran
          obtain ⟨_, written, rfl, rfl⟩ := ran
          exact Or.inr (Or.inl ⟨written, ⟨cutoff, rfl, stale⟩, rfl⟩)
        · rename_i recent
          simp only [Option.map_eq_some_iff, Prod.mk.injEq] at ran
          obtain ⟨_, written, rfl, rfl⟩ := ran
          exact Or.inr (Or.inr ⟨written, ⟨cutoff, rfl, recent⟩, rfl⟩)
    | readBack => simp [claimStatement] at ran
  | updated requestId taken =>
    cases statement with
    | select => simp [claimStatement] at ran
    | update => simp [claimStatement] at ran
    | readBack =>
      simp only [claimStatement, Option.some.injEq, Prod.mk.injEq] at ran
      exact Or.inr (Or.inr ⟨requestId, taken, rfl, rfl, ran.1.symm, ran.2.symm⟩)
  | returned taken row => cases statement <;> simp [claimStatement] at ran
  | raised => cases statement <;> simp [claimStatement] at ran

/-- A call whose statements run without another call's between them, up to its return. -/
def runClaim (requests : Requests) (call : ClaimCall) : List ClaimStatement → Requests × ClaimCall
  | [] => (requests, call)
  | statement :: rest =>
      match claimStatement requests call statement with
      | none => (requests, call)
      | some (next, after) => runClaim next after rest

def claim (requests : Requests) (appCommandId : String) (ttlSeconds : Int) (now writtenAt : Moment) :
    Requests × ClaimCall :=
  runClaim requests .idle [.select appCommandId ttlSeconds, .update now writtenAt, .readBack]

/-- The table and the calls running on it. -/
structure Queue where
  requests : Requests
  calls : Nat → ClaimCall

/-- One call runs its next statement. -/
def step (queue : Queue) (label : Nat × ClaimStatement) : Option Queue :=
  (claimStatement queue.requests (queue.calls label.1) label.2).map fun result =>
    { requests := result.1, calls := Function.update queue.calls label.1 result.2 }

variable {queue : Queue} {requestId : Nat}

theorem step_eq_some {next : Queue} {call : Nat} (stepped : step queue (call, statement) = some next) :
    claimStatement queue.requests (queue.calls call) statement = some (next.requests, next.calls call) ∧
      ∀ other, other ≠ call → next.calls other = queue.calls other := by
  simp only [step, Option.map_eq_some_iff] at stepped
  obtain ⟨⟨requests, after⟩, ran, rfl⟩ := stepped
  constructor
  · simpa using ran
  · intro other different
    simp [different]

/-! ## Who holds a request -/

/-- The request a call has taken by its own guarded update. -/
def ClaimCall.takes : ClaimCall → Option Nat
  | .updated requestId true => some requestId
  | .returned true (some row) => some row.requestId
  | _ => none

def ClaimCall.handed : ClaimCall → Option Request
  | .returned _ row => row
  | _ => none

/-- A claim that nothing interrupts takes the waiting request, expires it, or changes nothing. -/
theorem claim_cases (requests : Requests) (appCommandId : String) (ttlSeconds : Int) (now writtenAt : Moment) :
    ((claim requests appCommandId ttlSeconds now writtenAt).1 = requests ∧
      (claim requests appCommandId ttlSeconds now writtenAt).2.handed = none) ∨
    ∃ row, pendingFor requests appCommandId = some row ∧
      ((finish requests row.requestId .expired writtenAt (notPickedUp ttlSeconds) =
            some (claim requests appCommandId ttlSeconds now writtenAt).1 ∧
          (claim requests appCommandId ttlSeconds now writtenAt).2.handed = none) ∨
        (setClaimed requests row.requestId writtenAt = some (claim requests appCommandId ttlSeconds now writtenAt).1 ∧
          (claim requests appCommandId ttlSeconds now writtenAt).2.handed = some (claimedBy writtenAt row))) := by
  cases waiting : pendingFor requests appCommandId with
  | none => exact Or.inl (by simp [claim, runClaim, claimStatement, waiting, ClaimCall.handed])
  | some row =>
    obtain ⟨present, _, pending⟩ := pendingFor_eq_some waiting
    cases shifted : now.shift (-(max 1 ttlSeconds)) with
    | none => exact Or.inl (by simp [claim, runClaim, claimStatement, waiting, shifted, ClaimCall.handed])
    | some cutoff =>
      refine Or.inr ⟨row, rfl, ?_⟩
      by_cases stale : row.requestedAt < isoText cutoff
      · have accepted : (finish requests row.requestId .expired writtenAt (notPickedUp ttlSeconds)).isSome = true :=
          write_isSome (keeps_finished _ _ _) (by simp)
        obtain ⟨next, written⟩ := Option.isSome_iff_exists.mp accepted
        exact Or.inl (by simp [claim, runClaim, claimStatement, waiting, shifted, stale, written,
          ClaimCall.handed])
      · have accepted : (setClaimed requests row.requestId writtenAt).isSome = true :=
          write_isSome (keeps_claimedBy _) (by simp)
        obtain ⟨next, written⟩ := Option.isSome_iff_exists.mp accepted
        have taken := lookup_write_self (keeps_claimedBy writtenAt) written present (by simp [pending])
        have back : (some (claimedBy writtenAt row)).filter (fun row => decide (row.status = .claimed)) =
            some (claimedBy writtenAt row) := by
          simp [claimedBy]
        exact Or.inr (by simp [claim, runClaim, claimStatement, waiting, shifted, stale, written, taken,
          back, ClaimCall.handed])

/-- No request is handed to two calls, and a call whose update changed nothing is handed nothing. -/
def Exclusive (queue : Queue) : Prop :=
  (∀ call other row another, (queue.calls call).handed = some row → (queue.calls other).handed = some another →
    row.requestId = another.requestId → call = other) ∧
  ∀ call row, queue.calls call ≠ .returned false (some row)

/-- A call whose update changed nothing reads its request back only when no call has it claimed. -/
def LoserFindsNone (queue : Queue) (label : Nat × ClaimStatement) (_ : Queue) : Prop :=
  label.2 = .readBack → ∀ requestId, queue.calls label.1 = .updated requestId false →
    ∀ row, queue.requests.lookup requestId = some row → row.status ≠ .claimed

structure Taken (queue : Queue) : Prop where
  moved : ∀ call requestId row, (queue.calls call).takes = some requestId →
    queue.requests.lookup requestId = some row → row.status ≠ .pending
  once : ∀ call other requestId, (queue.calls call).takes = some requestId →
    (queue.calls other).takes = some requestId → call = other

/-- A statement of `claim` takes a waiting request, or keeps what its call had taken. -/
theorem takes_cases (ran : claimStatement requests call statement = some (next, after))
    (takes : after.takes = some requestId) :
    call.takes = some requestId ∨
      ∃ row writtenAt, requests.lookup requestId = some row ∧ row.status = .pending ∧
        setClaimed requests requestId writtenAt = some next := by
  rcases claimStatement_cases ran with
    ⟨_, _, _, _, _, rfl | ⟨row, _, rfl⟩⟩ |
    ⟨row, _, _, writtenAt, _, _, ⟨_, _, rfl⟩ | ⟨_, _, rfl⟩ | ⟨written, _, rfl⟩⟩ |
    ⟨own, taken, rfl, _, _, rfl⟩
  · simp [ClaimCall.takes] at takes
  · simp [ClaimCall.takes] at takes
  · simp [ClaimCall.takes] at takes
  · simp [ClaimCall.takes] at takes
  · cases found : requests.lookup row.requestId with
    | none => simp [ClaimCall.takes, found] at takes
    | some present =>
      cases waits : decide (present.status = .pending) with
      | false => simp [ClaimCall.takes, found, waits] at takes
      | true =>
        simp only [found, Option.any_some, waits, ClaimCall.takes, Option.some.injEq] at takes
        subst takes
        exact Or.inr ⟨present, writtenAt, found, of_decide_eq_true waits, written⟩
  · cases taken with
    | false => simp [ClaimCall.takes] at takes
    | true =>
      cases back : (requests.lookup own).filter fun row => row.status = .claimed with
      | none => simp [ClaimCall.takes, back] at takes
      | some row =>
        have found := (Option.filter_eq_some_iff.mp back).1
        simp only [back, ClaimCall.takes, Option.some.injEq] at takes
        rw [Table.key_of_lookup found] at takes
        exact Or.inl (congrArg some takes)

theorem claimStatement_moved (ran : claimStatement requests call statement = some (next, after)) {row : Request}
    (found : next.lookup requestId = some row) (waits : row.status = .pending) :
    requests.lookup requestId = some row := by
  rcases claimStatement_cases ran with
    ⟨_, _, _, _, rfl, _⟩ | ⟨_, _, _, writtenAt, _, _, ⟨_, rfl, _⟩ | ⟨written, _⟩ | ⟨written, _⟩⟩ |
    ⟨_, _, _, _, rfl, _⟩
  · exact found
  · exact found
  · obtain ⟨before, present, ⟨_, _, rfl⟩ | rfl⟩ := status_write (keeps_finished _ _ _) written found
    · simp [finished] at waits
    · exact present
  · obtain ⟨before, present, ⟨_, _, rfl⟩ | rfl⟩ := status_write (keeps_claimedBy writtenAt) written found
    · simp [claimedBy] at waits
    · exact present
  · exact found

theorem taken_step (queue : Queue) (label : Nat × ClaimStatement) (next : Queue)
    (stepped : step queue label = some next) (taken : Taken queue) : Taken next := by
  obtain ⟨call, statement⟩ := label
  obtain ⟨ran, others⟩ := step_eq_some stepped
  -- Another call's taken request was moved before this step, and stays moved.
  have kept {other requestId : Nat} (different : other ≠ call)
      (takes : (next.calls other).takes = some requestId) : (queue.calls other).takes = some requestId := by
    rwa [others other different] at takes
  -- A request this call takes anew was waiting, so no other call had taken it.
  have apart {other requestId : Nat} (different : other ≠ call)
      (takes : (next.calls other).takes = some requestId) : (next.calls call).takes ≠ some requestId := by
    intro own
    rcases takes_cases ran own with before | ⟨row, _, found, waits, _⟩
    · exact different (taken.once other call requestId (kept different takes) before)
    · exact taken.moved other requestId row (kept different takes) found waits
  constructor
  · intro other requestId row takes found waits
    have present := claimStatement_moved ran found waits
    rcases eq_or_ne other call with rfl | different
    · rcases takes_cases ran takes with before | ⟨old, writtenAt, was, pending, written⟩
      · exact taken.moved other requestId row before present waits
      · have claimed := lookup_write_self (keeps_claimedBy writtenAt) written was (by simp [pending])
        obtain rfl := Option.some.inj (found.symm.trans claimed)
        simp [claimedBy] at waits
    · exact taken.moved other requestId row (kept different takes) present waits
  · intro other another requestId takes also
    rcases eq_or_ne other call with rfl | different
    · rcases eq_or_ne another other with rfl | distinct
      · rfl
      · exact absurd takes (apart distinct also)
    · rcases eq_or_ne another call with rfl | distinct
      · exact absurd also (apart different takes)
      · exact taken.once other another requestId (kept different takes) (kept distinct also)

theorem exclusive_iff (taken : Taken queue) :
    Exclusive queue ↔ ∀ call row, queue.calls call ≠ .returned false (some row) := by
  constructor
  · exact And.right
  · intro losers
    have takes {call : Nat} {row : Request} (handed : (queue.calls call).handed = some row) :
        (queue.calls call).takes = some row.requestId := by
      cases state : queue.calls call with
      | returned own back =>
        rw [state] at handed
        obtain rfl : back = some row := handed
        cases own with
        | false => exact absurd state (losers call row)
        | true => rfl
      | _ => simp [state, ClaimCall.handed] at handed
    refine ⟨?_, losers⟩
    intro call other row another handed also same
    apply taken.once call other row.requestId (takes handed)
    rw [same]
    exact takes also

/-- A call that was handed its loss keeps it. -/
theorem loss_stays (queue : Queue) (label : Nat × ClaimStatement) (next : Queue)
    (stepped : step queue label = some next)
    (lost : ∃ call row, queue.calls call = .returned false (some row)) :
    ∃ call row, next.calls call = .returned false (some row) := by
  obtain ⟨call, row, returned⟩ := lost
  obtain ⟨ran, others⟩ := step_eq_some stepped
  refine ⟨call, row, ?_⟩
  rcases eq_or_ne call label.1 with rfl | different
  · rw [returned] at ran
    simp [claimStatement] at ran
  · rw [others call different, returned]

theorem loss_of_not_loserFindsNone (queue : Queue) (label : Nat × ClaimStatement) (next : Queue)
    (stepped : step queue label = some next) (found : ¬ LoserFindsNone queue label next) :
    ∃ call row, next.calls call = .returned false (some row) := by
  obtain ⟨call, statement⟩ := label
  simp only [LoserFindsNone, not_forall, not_not] at found
  obtain ⟨rfl, requestId, loser, row, present, claimed⟩ := found
  obtain ⟨ran, _⟩ := step_eq_some stepped
  simp only [loser, claimStatement, present, Option.some.injEq, Prod.mk.injEq] at ran
  have back : (some row).filter (fun row => decide (row.status = .claimed)) = some row := by
    simp [claimed]
  rw [back] at ran
  exact ⟨call, row, ran.2.symm⟩

theorem no_loss_step (queue : Queue) (label : Nat × ClaimStatement) (next : Queue)
    (stepped : step queue label = some next) (condition : LoserFindsNone queue label next)
    (before : ∀ call row, queue.calls call ≠ .returned false (some row)) :
    ∀ call row, next.calls call ≠ .returned false (some row) := by
  obtain ⟨own, statement⟩ := label
  obtain ⟨ran, others⟩ := step_eq_some stepped
  intro call row returned
  rcases eq_or_ne call own with rfl | different
  · rw [returned] at ran
    rcases claimStatement_cases ran with
      ⟨_, _, _, _, _, after | ⟨_, _, after⟩⟩ | ⟨_, _, _, _, _, _, ⟨_, _, after⟩ | ⟨_, _, after⟩ | ⟨_, _, after⟩⟩ |
      ⟨requestId, taken, updated, rfl, _, after⟩
    · simp at after
    · simp at after
    · simp at after
    · simp at after
    · simp at after
    · simp only [ClaimCall.returned.injEq] at after
      obtain ⟨rfl, back⟩ := after
      obtain ⟨present, claimed⟩ := Option.filter_eq_some_iff.mp back.symm
      exact condition rfl requestId updated row present (of_decide_eq_true claimed)
  · rw [others call different] at returned
    exact before call row returned

/-- Claims are exclusive exactly in the runs in which no call that lost its update finds the
request claimed by the call that won. -/
theorem claim_exclusive_iff {start final : Queue} {labels : List (Nat × ClaimStatement)}
    (fresh : ∀ call, start.calls call = .idle) (run : exec step start labels = some final) :
    Exclusive final ↔ Every step LoserFindsNone start labels := by
  have initial : Taken start := by
    constructor
    · intro call requestId row takes
      simp [fresh call, ClaimCall.takes] at takes
    · intro call other requestId takes
      simp [fresh call, ClaimCall.takes] at takes
  rw [exclusive_iff (exec_invariant taken_step initial run)]
  constructor
  · intro losers
    apply every_of_final _ loss_of_not_loserFindsNone loss_stays run
    rintro ⟨call, row, returned⟩
    exact losers call row returned
  · intro condition
    apply exec_invariant_of_every no_loss_step condition _ run
    intro call row returned
    simp [fresh call] at returned

/-! ## Two daemons on one request -/

def noon : Moment := ⟨63000000000, by norm_num⟩

/-- One request of a command, queued just now, and no call begun. -/
def oneWaiting : Queue where
  requests :=
    { rows :=
        [{ requestId := 1, appCommandId := "APP-COLLECT", status := .pending, requestedBy := "operator",
           requestSource := "console", requestedAt := isoText noon, claimedAt := none, startedAt := none,
           finishedAt := none, jobRunId := none, note := "" }]
      keys_nodup := by simp
      index_nodup := by simp [pendingCommand] }
  calls := fun _ => .idle

/-- The second call asks after the first has returned. -/
def oneAfterTheOther : List (Nat × ClaimStatement) :=
  [(0, .select "APP-COLLECT" 900), (0, .update noon noon), (0, .readBack), (1, .select "APP-COLLECT" 900)]

theorem claim_exclusive_oneAfterTheOther :
    ∃ final, exec step oneWaiting oneAfterTheOther = some final ∧
      (Exclusive final ↔ Every step LoserFindsNone oneWaiting oneAfterTheOther) := by
  have enabled : (exec step oneWaiting oneAfterTheOther).isSome = true := by decide +kernel
  obtain ⟨final, run⟩ := Option.isSome_iff_exists.mp enabled
  exact ⟨final, run, claim_exclusive_iff (fun _ => rfl) run⟩

/-- Both calls read the request while it waits; the second updates nothing and reads back the first's row. -/
def bothSelectFirst : List (Nat × ClaimStatement) :=
  [(0, .select "APP-COLLECT" 900), (1, .select "APP-COLLECT" 900), (0, .update noon noon), (0, .readBack),
    (1, .update noon noon), (1, .readBack)]

theorem claim_hands_one_request_to_two_calls :
    ¬ ∀ (start final : Queue) (labels : List (Nat × ClaimStatement)), (∀ call, start.calls call = .idle) →
      exec step start labels = some final →
      ∀ call other row another, (final.calls call).handed = some row →
        (final.calls other).handed = some another → row.requestId = another.requestId → call = other := by
  intro exclusive
  have enabled : ((exec step oneWaiting bothSelectFirst).map fun final =>
      (((final.calls 0).handed.map Request.requestId), ((final.calls 1).handed.map Request.requestId))) =
        some (some 1, some 1) := by decide +kernel
  obtain ⟨final, run, both⟩ := Option.map_eq_some_iff.mp enabled
  simp only [Prod.mk.injEq, Option.map_eq_some_iff] at both
  obtain ⟨⟨row, handed, first⟩, ⟨another, also, second⟩⟩ := both
  have same := exclusive oneWaiting final bothSelectFirst (fun _ => rfl) run 0 1 row another handed also
    (first.trans second.symm)
  exact absurd same (by simp)

end DbaBrain.Db.RunRequestClaim
