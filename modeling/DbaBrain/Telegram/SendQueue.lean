import DbaBrain.Foundation.Execution
import DbaBrain.Foundation.Json

/-!
# The send queue

A sender takes a pending row by comparing and setting its status, sends it, and
reports its outcome by the row's id alone.  A row in flight for too long is put
back in the queue, whether its sender is gone or only slow.  A ledger beside
the store says which sender each row in flight belongs to; no statement reads
it.
-/

namespace DbaBrain.Telegram.SendQueue

open DbaBrain.Foundation DbaBrain.Foundation.Execution

/-! ## The statements -/

inductive SendStatus
  | pending
  | sent
  | inFlight
  | failed
  deriving DecidableEq

/-- A row of `telegram_send_messages`; `sourceCommand` is its `source_id` where its source is a command message. -/
structure SendRow where
  status : SendStatus
  sendDate : Option Int
  messageId : Option Int
  sourceCommand : Option Nat
  metadata : Json

/-- The rows by their ids, and the `reply_message_id`s of the command messages. -/
structure Store where
  rows : Nat → Option SendRow
  replies : Nat → Option Int

namespace Store

/-- `UPDATE .. WHERE send_tlgmsg_id = ?`. -/
def update (store : Store) (id : Nat) (change : SendRow → SendRow) : Store :=
  { store with rows := Function.update store.rows id ((store.rows id).map change) }

def status (store : Store) (id : Nat) : Option SendStatus := (store.rows id).map SendRow.status

end Store

def sendRowMetadata : Json → List (String × Json)
  | .object entries => entries
  | _ => []

/-- `metadata[name] = value`. -/
def setEntry (name : String) (value : Json) (entries : List (String × Json)) : List (String × Json) :=
  if name ∈ entries.map Prod.fst then entries.map fun entry => if entry.1 = name then (name, value) else entry
  else entries ++ [(name, value)]

def mergeEntries (extra entries : List (String × Json)) : List (String × Json) :=
  extra.foldl (fun merged entry => setEntry entry.1 entry.2 merged) entries

/-- `mark_telegram_send_message_processing`. -/
def markProcessing (id : Nat) (now : Int) (store : Store) : Bool × Store :=
  if store.status id = some .pending then
    (true, store.update id fun row => { row with status := .inFlight, sendDate := some now })
  else (false, store)

/-- In flight since before the cutoff, or since nobody knows when. -/
def isStale (cutoff : Int) (row : SendRow) : Bool :=
  row.status = .inFlight &&
    match row.sendDate with
    | none => true
    | some since => since < cutoff

/-- `requeue_stale_telegram_send_messages`. -/
def requeueStale (now olderThanSeconds : Int) (store : Store) : Store :=
  { store with rows := fun id => (store.rows id).map fun row =>
      if isStale (now - olderThanSeconds) row then { row with status := .pending, sendDate := none } else row }

/-- `mark_telegram_send_message_sent`; a message id of zero is none to reply to. -/
def markSent (id : Nat) (now : Int) (messageId : Option Int) (store : Store) : Store :=
  let written := store.update id fun row => { row with status := .sent, sendDate := some now, messageId := messageId }
  match (store.rows id).bind SendRow.sourceCommand with
  | some command =>
      if messageId ≠ none ∧ messageId ≠ some 0 then
        { written with replies := Function.update written.replies command messageId }
      else written
  | none => written

/-- `mark_telegram_send_message_failed`. -/
def markFailed (id : Nat) (now : Int) (failText : String) (store : Store) : Store :=
  store.update id fun row =>
    { row with
      status := .failed
      sendDate := some now
      metadata := .object (setEntry "fail_text" (.string failText) (sendRowMetadata row.metadata)) }

/-- `reset_telegram_send_message_pending`. -/
def resetPending (id : Nat) (failText : String) (extra : List (String × Json)) (store : Store) : Store :=
  store.update id fun row =>
    { row with
      status := .pending
      metadata := .object (mergeEntries extra
        (setEntry "last_fail_text" (.string failText) (sendRowMetadata row.metadata))) }

/-! ## Senders -/

/-- What a sender reports of its row. -/
inductive Outcome
  | sent (messageId : Option Int)
  | failed (failText : String)
  | rateLimited (failText : String) (extra : List (String × Json))

def report (id : Nat) (now : Int) (store : Store) : Outcome → Store
  | .sent messageId => markSent id now messageId store
  | .failed failText => markFailed id now failText store
  | .rateLimited failText extra => resetPending id failText extra store

/-- The store, the row each sender holds, and the sender each row in flight belongs to. -/
structure System where
  store : Store
  holds : Nat → Option Nat
  owner : Nat → Option Nat

inductive Step
  | queued (id : Nat) (sourceCommand : Option Nat) (metadata : Json)
  | taken (sender id : Nat) (now : Int)
  | requeued (now olderThanSeconds : Int)
  | reported (sender : Nat) (now : Int) (outcome : Outcome)
  /-- Killed, or it could not record what it sent. -/
  | gone (sender : Nat)

def newRow (sourceCommand : Option Nat) (metadata : Json) : SendRow := ⟨.pending, none, none, sourceCommand, metadata⟩

def step (s : System) : Step → Option System
  | .queued id sourceCommand metadata =>
      if s.store.rows id = none then
        some { s with store := { s.store with
          rows := Function.update s.store.rows id (some (newRow sourceCommand metadata)) } }
      else none
  | .taken sender id now =>
      if s.holds sender = none then
        let (taken, store) := markProcessing id now s.store
        if taken then
          some ⟨store, Function.update s.holds sender (some id), Function.update s.owner id (some sender)⟩
        else some { s with store := store }
      else none
  | .requeued now olderThanSeconds =>
      some { s with
        store := requeueStale now olderThanSeconds s.store
        owner := fun id =>
          match s.store.rows id with
          | some row => if isStale (now - olderThanSeconds) row then none else s.owner id
          | none => s.owner id }
  | .reported sender now outcome =>
      match s.holds sender with
      | some id =>
          some
            { store := report id now s.store outcome
              holds := Function.update s.holds sender none
              owner := Function.update s.owner id (if s.owner id = some sender then none else s.owner id) }
      | none => none
  | .gone sender => some { s with holds := Function.update s.holds sender none }

/-- No sender holds a row yet. -/
def System.start (store : Store) : System := ⟨store, fun _ => none, fun _ => none⟩

/-! ## What the queue keeps -/

/-- What is sent stays sent, and a report on a row that is another's leaves its status. -/
structure Keeps (s : System) (label : Step) (next : System) : Prop where
  sent : ∀ id, s.store.status id = some .sent → next.store.status id = some .sent
  owned : ∀ sender now outcome id, label = .reported sender now outcome → s.holds sender = some id →
    s.owner id ≠ some sender → next.store.status id = s.store.status id

def Sent (id : Nat) (s : System) : Prop := s.store.status id = some .sent

/-- What is put back in the queue is held by no sender. -/
def LeftBehind (s : System) (label : Step) (_ : System) : Prop :=
  ∀ now olderThanSeconds, label = .requeued now olderThanSeconds → ∀ id row, s.store.rows id = some row →
    isStale (now - olderThanSeconds) row = true → ∀ sender, s.holds sender ≠ some id

def Owned (s : System) : Prop :=
  ∀ sender id, s.holds sender = some id → s.owner id = some sender ∧ s.store.status id = some .inFlight

theorem owned_start (store : Store) : Owned (System.start store) := by
  intro sender id held
  cases held

section Statements

variable {store : Store} {id other : Nat} {now olderThanSeconds : Int}

theorem status_update (change : SendRow → SendRow) :
    (store.update id change).status other =
      if other = id then (store.rows id).map fun row => (change row).status else store.status other := by
  unfold Store.update Store.status
  by_cases same : other = id
  · subst same
    simp [Option.map_map, Function.comp_def]
  · simp [same]

theorem status_update_other (change : SendRow → SendRow) (apart : other ≠ id) :
    (store.update id change).status other = store.status other := by
  rw [status_update, if_neg apart]

/-- A report writes its own row only. -/
theorem status_report_other (outcome : Outcome) (apart : other ≠ id) :
    (report id now store outcome).status other = store.status other := by
  cases outcome with
  | sent messageId =>
    have written : (store.update id fun row =>
        { row with status := .sent, sendDate := some now, messageId := messageId }).status other = store.status other :=
      status_update_other _ apart
    unfold report markSent
    dsimp only
    split
    · split
      · exact written
      · exact written
    · exact written
  | failed failText => exact status_update_other _ apart
  | rateLimited failText extra => exact status_update_other _ apart

theorem status_requeueStale_of_not_inFlight (settled : store.status id ≠ some .inFlight) :
    (requeueStale now olderThanSeconds store).status id = store.status id := by
  unfold Store.status at settled
  unfold requeueStale Store.status
  dsimp only
  cases found : store.rows id with
  | none => rfl
  | some row =>
    rw [found] at settled
    have fresh : isStale (now - olderThanSeconds) row = false := by
      unfold isStale
      rw [Bool.and_eq_false_iff]
      left
      refine decide_eq_false ?_
      intro inFlight
      exact settled (congrArg some inFlight)
    rw [Option.map_some, Option.map_some, fresh]
    rfl

/-- A row that is not stale is left as it is. -/
theorem rows_requeueStale_of_fresh
    (fresh : ∀ row, store.rows id = some row → isStale (now - olderThanSeconds) row = false) :
    (requeueStale now olderThanSeconds store).rows id = store.rows id := by
  unfold requeueStale
  dsimp only
  cases found : store.rows id with
  | none => rfl
  | some row =>
    rw [Option.map_some, fresh row found]
    rfl

/-- Taking a row leaves the other rows, and it is in flight. -/
theorem markProcessing_spec (taken : (markProcessing id now store).1 = true) :
    store.status id = some .pending ∧ (markProcessing id now store).2.status id = some .inFlight ∧
      ∀ other, other ≠ id → (markProcessing id now store).2.status other = store.status other := by
  unfold markProcessing at taken ⊢
  by_cases pending : store.status id = some .pending
  · rw [if_pos pending]
    refine ⟨pending, ?_, fun other apart => status_update_other _ apart⟩
    dsimp only
    rw [status_update, if_pos rfl]
    obtain ⟨row, found, -⟩ := Option.map_eq_some_iff.mp pending
    rw [found]
    rfl
  · rw [if_neg pending] at taken
    cases taken

theorem markProcessing_refused (refused : (markProcessing id now store).1 = false) :
    (markProcessing id now store).2 = store := by
  unfold markProcessing at refused ⊢
  split
  · rename_i pending
    rw [if_pos pending] at refused
    cases refused
  · rfl

end Statements

/-! ## Runs -/

section Runs

variable {s next : System} {label : Step}

/-- Two senders never hold one row. -/
theorem Owned.unique (owned : Owned s) {first second id : Nat} (here : s.holds first = some id)
    (there : s.holds second = some id) : first = second :=
  Option.some.inj ((owned first id here).1.symm.trans (owned second id there).1)

/-- Putting back only what is left behind keeps every sender's row its own. -/
theorem owned_step (enabled : step s label = some next) (left : LeftBehind s label next) (owned : Owned s) :
    Owned next := by
  unfold step at enabled
  cases label with
  | queued id sourceCommand metadata =>
    dsimp only at enabled
    split at enabled
    · rename_i fresh
      cases enabled
      intro sender held holding
      obtain ⟨mine, inFlight⟩ := owned sender held holding
      refine ⟨mine, ?_⟩
      have apart : held ≠ id := by
        rintro rfl
        unfold Store.status at inFlight
        rw [fresh] at inFlight
        cases inFlight
      unfold Store.status at inFlight ⊢
      dsimp only
      rw [Function.update_of_ne apart]
      exact inFlight
    · cases enabled
  | taken sender id now =>
    dsimp only at enabled
    split at enabled
    · split at enabled
      · rename_i taken
        obtain ⟨pending, inFlight, others⟩ := markProcessing_spec taken
        cases enabled
        intro other held holding
        dsimp only at holding ⊢
        by_cases same : other = sender
        · subst same
          rw [Function.update_self] at holding
          cases holding
          exact ⟨Function.update_self _ _ _, inFlight⟩
        · rw [Function.update_of_ne same] at holding
          obtain ⟨mine, before⟩ := owned other held holding
          have apart : held ≠ id := by
            rintro rfl
            rw [pending] at before
            cases before
          exact ⟨(Function.update_of_ne apart _ _).trans mine, (others held apart).trans before⟩
      · rename_i refused
        cases enabled
        rw [markProcessing_refused (Bool.eq_false_iff.mpr refused)]
        exact owned
    · cases enabled
  | requeued now olderThanSeconds =>
    cases enabled
    intro sender id holding
    obtain ⟨mine, inFlight⟩ := owned sender id holding
    have fresh : ∀ row, s.store.rows id = some row → isStale (now - olderThanSeconds) row = false := by
      intro row found
      by_contra stale
      exact left now olderThanSeconds rfl id row found (Bool.eq_true_of_not_eq_false stale) sender holding
    refine ⟨?_, ?_⟩
    · dsimp only
      cases found : s.store.rows id with
      | none => exact mine
      | some row =>
        dsimp only
        rw [fresh row found]
        exact mine
    · unfold Store.status
      dsimp only
      rw [rows_requeueStale_of_fresh fresh]
      exact inFlight
  | reported sender now outcome =>
    dsimp only at enabled
    split at enabled
    · rename_i id holds
      cases enabled
      intro other held holding
      dsimp only at holding ⊢
      by_cases same : other = sender
      · subst same
        rw [Function.update_self] at holding
        cases holding
      · rw [Function.update_of_ne same] at holding
        obtain ⟨mine, inFlight⟩ := owned other held holding
        have apart : held ≠ id := by
          rintro rfl
          exact same (owned.unique holding holds)
        exact ⟨(Function.update_of_ne apart _ _).trans mine, (status_report_other outcome apart).trans inFlight⟩
    · cases enabled
  | gone sender =>
    cases enabled
    intro other held holding
    dsimp only at holding ⊢
    by_cases same : other = sender
    · subst same
      rw [Function.update_self] at holding
      cases holding
    · rw [Function.update_of_ne same] at holding
      exact owned other held holding

/-- While every sender's row is its own, what is sent stays sent. -/
theorem keeps_of_owned (enabled : step s label = some next) (owned : Owned s) : Keeps s label next := by
  constructor
  · intro id sent
    cases label with
    | queued other sourceCommand metadata =>
      unfold step at enabled
      dsimp only at enabled
      split at enabled
      · rename_i fresh
        cases enabled
        have apart : id ≠ other := by
          rintro rfl
          unfold Store.status at sent
          rw [fresh] at sent
          cases sent
        unfold Store.status at sent ⊢
        dsimp only
        rw [Function.update_of_ne apart]
        exact sent
      · cases enabled
    | taken sender other now =>
      unfold step at enabled
      dsimp only at enabled
      split at enabled
      · split at enabled
        · rename_i taken
          obtain ⟨pending, -, others⟩ := markProcessing_spec taken
          cases enabled
          have apart : id ≠ other := by
            rintro rfl
            rw [pending] at sent
            cases sent
          exact (others id apart).trans sent
        · rename_i refused
          cases enabled
          rw [markProcessing_refused (Bool.eq_false_iff.mpr refused)]
          exact sent
      · cases enabled
    | requeued now olderThanSeconds =>
      cases enabled
      refine (status_requeueStale_of_not_inFlight ?_).trans sent
      rw [sent]
      decide
    | reported sender now outcome =>
      unfold step at enabled
      dsimp only at enabled
      split at enabled
      · rename_i held holds
        cases enabled
        have apart : id ≠ held := by
          rintro rfl
          rw [(owned sender id holds).2] at sent
          cases sent
        exact (status_report_other outcome apart).trans sent
      · cases enabled
    | gone sender =>
      cases enabled
      exact sent
  · intro sender now outcome id _ holding other
    exact absurd (owned sender id holding).1 other

/-- In a run that puts back only rows no sender holds any more, a report on another's row leaves it, and a row once
sent is sent in every later state. -/
theorem sent_stays_sent (store : Store) (labels : List Step) (left : Every step LeftBehind (System.start store) labels) :
    Every step Keeps (System.start store) labels ∧
      ∀ front back middle final id, labels = front ++ back → exec step (System.start store) front = some middle →
        exec step middle back = some final → middle.store.status id = some .sent → final.store.status id = some .sent := by
  have kept : Every step Keeps (System.start store) labels :=
    left.mono (fun _ _ _ => owned_step) (fun _ _ _ enabled owned _ => keeps_of_owned enabled owned) (owned_start store)
  refine ⟨kept, ?_⟩
  rintro front back middle final id rfl reached run sent
  have stays : Sent id final := exec_invariant_of_every (fun _ _ _ _ keeps held => keeps.sent id held)
    (kept.rest reached) (show Sent id middle from sent) run
  exact stays

end Runs

/-! ## A slow sender -/

def emptyStore : Store := ⟨fun _ => none, fun _ => none⟩

/-- The row is put back under its sender, sent by another, and then reported failed by the first. -/
def slowSender : List Step :=
  [.queued 7 none (.object []), .taken 0 7 0, .requeued 1000 900, .taken 1 7 1000, .reported 1 1001 (.sent (some 5))]

theorem slow_sender_unsends : ¬∀ store labels, Every step Keeps (System.start store) labels := by
  intro kept
  have last := (kept emptyStore (slowSender ++ [.reported 0 1002 (.failed "timed out")])).last rfl rfl
  exact absurd (last.sent 7 rfl) (by decide)

/-- A killed sender's row is sent by another, and a third one does not get it. -/
def killedSender : List Step :=
  [.queued 7 none (.object []), .taken 0 7 0, .gone 0, .requeued 1000 900, .taken 1 7 1000,
    .reported 1 1001 (.sent (some 5)), .taken 2 7 1100]

variable {s next : System} {label : Step}

theorem leftBehind_of_other (other : ∀ now olderThanSeconds, label ≠ .requeued now olderThanSeconds) :
    LeftBehind s label next :=
  fun now olderThanSeconds same => absurd same (other now olderThanSeconds)

theorem killed_sender_left : Every step LeftBehind (System.start emptyStore) killedSender := by
  refine (every_cons_of_eq_some rfl).mpr ⟨leftBehind_of_other (fun _ _ => nofun), ?_⟩
  refine (every_cons_of_eq_some rfl).mpr ⟨leftBehind_of_other (fun _ _ => nofun), ?_⟩
  refine (every_cons_of_eq_some rfl).mpr ⟨leftBehind_of_other (fun _ _ => nofun), ?_⟩
  refine (every_cons_of_eq_some rfl).mpr ⟨?_, ?_⟩
  · rintro _ _ _ id row _ _ sender holding
    dsimp only at holding
    rw [Function.update_idem] at holding
    by_cases same : sender = 0
    · rw [same, Function.update_self] at holding
      cases holding
    · rw [Function.update_of_ne same] at holding
      cases holding
  · refine (every_cons_of_eq_some rfl).mpr ⟨leftBehind_of_other (fun _ _ => nofun), ?_⟩
    refine (every_cons_of_eq_some rfl).mpr ⟨leftBehind_of_other (fun _ _ => nofun), ?_⟩
    exact (every_cons_of_eq_some rfl).mpr ⟨leftBehind_of_other (fun _ _ => nofun), trivial⟩

theorem killed_sender_stays_sent : ∃ final, exec step (System.start emptyStore) killedSender = some final ∧
    final.store.status 7 = some .sent :=
  ⟨_, rfl, (sent_stays_sent emptyStore killedSender killed_sender_left).2
    (killedSender.take 6) [.taken 2 7 1100] _ _ 7 rfl rfl rfl rfl⟩

/-! ## How often a row is taken -/

def takes (id : Nat) (s : System) : Step → Bool
  | .taken sender taken _ => taken = id ∧ s.holds sender = none ∧ s.store.status id = some .pending
  | _ => false

/-- The step puts the row back in the queue: it was in flight for too long, or its sender was told to wait. -/
def putsBack (id : Nat) (s : System) : Step → Bool
  | .requeued now olderThanSeconds => (s.store.rows id).any (isStale (now - olderThanSeconds))
  | .reported sender _ (.rateLimited _ _) => s.holds sender = some id
  | _ => false

def mayBeTaken (id : Nat) (s : System) : Nat :=
  if s.store.status id = none ∨ s.store.status id = some .pending then 1 else 0

def Outcome.status : Outcome → SendStatus
  | .sent _ => .sent
  | .failed _ => .failed
  | .rateLimited _ _ => .pending

theorem status_report_own (store : Store) (id : Nat) (now : Int) (outcome : Outcome) :
    (report id now store outcome).status id = (store.status id).map fun _ => outcome.status := by
  have written (change : SendRow → SendRow) (same : ∀ row, (change row).status = outcome.status) :
      (store.update id change).status id = (store.status id).map fun _ => outcome.status := by
    rw [status_update, if_pos rfl]
    simp [Store.status, Option.map_map, Function.comp_def, same]
  cases outcome with
  | sent messageId =>
    have own := written (fun row => { row with status := .sent, sendDate := some now, messageId := messageId })
      fun _ => rfl
    unfold report markSent
    dsimp only
    split
    · split
      · exact own
      · exact own
    · exact own
  | failed failText => exact written _ fun _ => rfl
  | rateLimited failText extra => exact written _ fun _ => rfl

/-- What a step does to a row's status, and whether it takes the row or puts it back. -/
inductive Moves (id : Nat) (s : System) (label : Step) (next : System) : Prop
  | stays (same : next.store.status id = s.store.status id) (untaken : takes id s label = false)
  | queued (absent : s.store.status id = none) (untaken : takes id s label = false)
  | taken (pending : s.store.status id = some .pending) (inFlight : next.store.status id = some .inFlight)
  | settled (status : SendStatus) (written : next.store.status id = (s.store.status id).map fun _ => status)
      (final : status ≠ .pending) (untaken : takes id s label = false)
  | back (again : putsBack id s label = true) (untaken : takes id s label = false)

theorem moves_of_step (id : Nat) (enabled : step s label = some next) : Moves id s label next := by
  cases label with
  | queued other sourceCommand metadata =>
    rw [step] at enabled
    split at enabled
    · next fresh =>
        cases enabled
        by_cases same : id = other
        · subst same
          exact .queued (by rw [Store.status, fresh]; rfl) rfl
        · refine .stays ?_ rfl
          simp only [Store.status]
          rw [Function.update_of_ne same]
    · cases enabled
  | taken sender other now =>
    rw [step] at enabled
    split at enabled
    · next free =>
        dsimp only at enabled
        split at enabled
        · next taken =>
            obtain ⟨pending, inFlight, others⟩ := markProcessing_spec taken
            cases enabled
            by_cases same : id = other
            · subst same
              exact .taken pending inFlight
            · exact .stays (others id same) (by simp [takes, Ne.symm same])
        · next refused =>
            have unchanged := markProcessing_refused (Bool.eq_false_iff.mpr refused)
            cases enabled
            refine .stays (by dsimp only; rw [unchanged]) ?_
            have busy : s.store.status other ≠ some .pending := by
              intro pending
              exact refused (by rw [markProcessing, if_pos pending])
            refine decide_eq_false ?_
            rintro ⟨rfl, _, pending⟩
            exact busy pending
    · cases enabled
  | requeued now olderThanSeconds =>
    cases enabled
    cases found : s.store.rows id with
    | none =>
      refine .stays ?_ rfl
      simp [Store.status, requeueStale, found]
    | some row =>
      cases stale : isStale (now - olderThanSeconds) row with
      | true => exact .back (by simp [putsBack, found, stale]) rfl
      | false =>
        refine .stays ?_ rfl
        simp [Store.status, requeueStale, found, stale]
  | reported sender now outcome =>
    rw [step] at enabled
    split at enabled
    · next other holds =>
        cases enabled
        by_cases same : id = other
        · subst same
          have written := status_report_own s.store id now outcome
          cases outcome with
          | sent messageId => exact .settled .sent written nofun rfl
          | failed failText => exact .settled .failed written nofun rfl
          | rateLimited failText extra => exact .back (by simp [putsBack, holds]) rfl
        · exact .stays (status_report_other outcome same) rfl
    · cases enabled
  | gone sender =>
    cases enabled
    exact .stays rfl rfl

/-- A step that takes a row leaves it not to be taken, and only one that puts it back makes it so again. -/
theorem mayBeTaken_step (id : Nat) (s : System) (label : Step) (next : System) (enabled : step s label = some next) :
    (takes id s label).toNat + mayBeTaken id next ≤ mayBeTaken id s + (putsBack id s label).toNat := by
  have most : mayBeTaken id next ≤ 1 := by
    unfold mayBeTaken
    split <;> omega
  cases moves_of_step id enabled with
  | stays same untaken => simp [untaken, mayBeTaken, same]
  | queued absent untaken =>
    have ready : mayBeTaken id s = 1 := by simp [mayBeTaken, absent]
    rw [untaken, ready, Bool.toNat_false]
    omega
  | taken pending inFlight =>
    have ready : mayBeTaken id s = 1 := by simp [mayBeTaken, pending]
    have away : mayBeTaken id next = 0 := by simp [mayBeTaken, inFlight]
    have once := (takes id s label).toNat_le
    omega
  | settled status written final untaken =>
    rw [untaken, Bool.toNat_false]
    cases there : s.store.status id with
    | none =>
      have ready : mayBeTaken id s = 1 := by simp [mayBeTaken, there]
      omega
    | some before =>
      have away : mayBeTaken id next = 0 := by simp [mayBeTaken, written, there, final]
      omega
  | back again untaken =>
    rw [untaken, again, Bool.toNat_false, Bool.toNat_true]
    omega

/-- In every run of any number of senders a row is taken at most once more than it is put back in the queue. -/
theorem taken_once_more_than_put_back (store : Store) (labels : List Step) (id : Nat) :
    counted step (takes id) (System.start store) labels ≤
      1 + counted step (putsBack id) (System.start store) labels := by
  have most : mayBeTaken id (System.start store) ≤ 1 := by
    unfold mayBeTaken
    split <;> omega
  exact (counted_le (mayBeTaken id) (mayBeTaken_step id) _ labels).trans (Nat.add_le_add_right most _)

end DbaBrain.Telegram.SendQueue
