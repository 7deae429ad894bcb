import DbaBrain.Foundation.ReportOnce
import DbaBrain.Foundation.Table
import DbaBrain.Foundation.Text

/-!
# Background commands and the polls that report them

`check_cli_background_tasks` lists the running tasks and goes through them: it
looks at the process, reads the files it left, queues the completion message,
writes the final status and removes the files.  Each of these is a step that
other polls can come between, and the status is written whatever it was.
-/

namespace DbaBrain.Telegram.BackgroundTasks

open DbaBrain.Foundation DbaBrain.Foundation.Execution DbaBrain.Foundation.Text

/-! ## Tasks and what is left of them -/

inductive FinalStatus
  | done
  | failed
  | timeout
  deriving DecidableEq

/-- The `task_data` of a row as a poll reads it. -/
structure TaskData (ν : Type) where
  timeoutSeconds : Int
  values : ν
  successText : String
  failureText : String
  timeoutText : String
  successOutputContains : String
  hasCompletionProbe : Bool

/-- A row of `telegram_background_tasks`; one without a final status is running. -/
structure Task (ν π : Type) where
  taskId : Nat
  chatId : String
  messageId : Option Int
  commandId : Int
  commandText : String
  pid : Int
  stdoutPath : String
  stderrPath : String
  taskData : TaskData ν
  status : Option FinalStatus
  resultJson : Option π

/-- How the texts a process left are read: `int`, `parse_json_from_output` (an empty object is none), the status an
object states, and `_extract_error_from_output`. -/
structure OutputRules (π : Type) where
  int : String → Option Int
  parseJson : String → Option π
  statusOf : π → String
  errorFrom : String → String → String

/-- What a poll sees of the process and of the job runs: whose process it is, whether it lives, the terminal record
(a success or a failure, and its message) and the task's age. -/
structure Look where
  ours : Bool
  pidAlive : Bool
  probeResult : Option (Bool × String)
  ageSeconds : Option Int

/-- What of it the verdict rests on. -/
structure Sight where
  probeResult : Option (Bool × String)
  timedOut : Bool

/-- The exit code as a failure shows it. -/
inductive ShownCode
  | code (value : Int)
  | unknown

inductive MessageText (ν π : Type)
  | timedOut (template : String) (values : ν) (timeoutSeconds : Int)
  | completed (template : String) (values : ν) (parsed : Option π)
  | failed (template : String) (values : ν) (parsed : Option π) (exitCode : ShownCode) (errorSummary : String)

structure Verdict (ν π : Type) where
  status : FinalStatus
  text : MessageText ν π
  parsed : Option π

def exitCodePath (stdoutPath : String) : String := stdoutPath ++ ".rc"

/-! ## The verdict -/

/-- The looks at one task; nothing when it is left running. -/
def lookAt {ν π : Type} (task : Task ν π) (finished : Bool) (look : Look) : Option Sight :=
  let alive := !finished && look.ours && look.pidAlive
  match look.probeResult with
  | some _ => some ⟨look.probeResult, false⟩
  | none =>
      if alive then
        if look.ageSeconds.any fun age => task.taskData.timeoutSeconds < age then some ⟨none, true⟩ else none
      else some ⟨none, false⟩

def completionVerdict (exitCode : Option Int) (status : String) (markerFound timedOut expectsEvidence : Bool) : Bool :=
  if timedOut then false
  else
    match exitCode with
    | some code => code = 0
    | none => if status ∈ ["SUCCESS", "OK"] || markerFound then true else !expectsEvidence

def vanishedText : String :=
  "the process ended without recording an outcome: no completion record, no exit code. " ++
    "It was killed or interrupted mid-run — treat the run as incomplete and check the target before re-running."

def contains (text marker : String) : Bool := text.toList.tails.any fun rest => marker.toList.isPrefixOf rest

section Verdicts

variable {ν π : Type} (rules : OutputRules π)

/-- What is announced of a task that a poll does not leave running. -/
def verdictOf (task : Task ν π) (sight : Sight) (exitCode : Option Int) (stdout stderr : String) : Verdict ν π :=
  let parsed := rules.parseJson stdout
  let marker := task.taskData.successOutputContains
  let expectsEvidence := task.taskData.hasCompletionProbe || marker ≠ ""
  let success :=
    match sight.probeResult with
    | some (succeeded, _) => succeeded
    | none => completionVerdict exitCode ((parsed.map rules.statusOf).getD "") (marker ≠ "" && contains stdout marker)
        sight.timedOut expectsEvidence
  let vanished := sight.probeResult.isNone && !success && !sight.timedOut && exitCode.isNone && expectsEvidence
  if sight.timedOut then
    ⟨.timeout, .timedOut task.taskData.timeoutText task.taskData.values task.taskData.timeoutSeconds, parsed⟩
  else if success then ⟨.done, .completed task.taskData.successText task.taskData.values parsed, parsed⟩
  else
    let errorDetail :=
      match sight.probeResult with
      | some (_, message) => if message = "" then rules.errorFrom stderr stdout else message
      | none => if vanished then vanishedText else rules.errorFrom stderr stdout
    let shown :=
      match exitCode with
      | some code => .code code
      | none => if vanished then .unknown else .code 1
    ⟨.failed, .failed task.taskData.failureText task.taskData.values parsed shown errorDetail, parsed⟩

end Verdicts

/-! ## The polls -/

/-- The completion message a poll queues. -/
structure Message (ν π : Type) where
  chatId : String
  text : MessageText ν π
  replyMessageId : Option Int
  status : FinalStatus
  taskId : Nat
  commandId : Int
  commandText : String
  pid : Int

/-- How far a poll is; `rest` are the tasks it has listed and not come to. -/
inductive Phase (ν π : Type)
  | idle
  | listed (tasks : List (Task ν π))
  | looked (task : Task ν π) (sight : Sight) (rest : List (Task ν π))
  | readCode (task : Task ν π) (sight : Sight) (exitCode : Option Int) (rest : List (Task ν π))
  | readOutput (task : Task ν π) (sight : Sight) (exitCode : Option Int) (stdout : String) (rest : List (Task ν π))
  | judged (task : Task ν π) (verdict : Verdict ν π) (rest : List (Task ν π))
  | announced (task : Task ν π) (verdict : Verdict ν π) (rest : List (Task ν π))
  | completed (paths : List String) (rest : List (Task ν π))

abbrev Tasks (ν π : Type) := Table (Task.taskId : Task ν π → Nat) (fun _ => (none : Option Unit))

structure State (ν π : Type) (n : Nat) where
  tasks : Tasks ν π
  lastId : Nat
  files : String → Option String
  messages : List (Message ν π)
  poll : Fin n → Phase ν π

structure Dispatch (ν : Type) where
  chatId : String
  messageId : Option Int
  commandId : Int
  commandText : String
  pid : Int
  stdoutPath : String
  stderrPath : String
  taskData : TaskData ν

/-- A command is dispatched, a process writes a file, or a poll takes a step; one that `stopped` was killed or raised. -/
inductive Label (ν : Type) (n : Nat)
  | dispatched (dispatch : Dispatch ν)
  | wrote (path text : String)
  | fetched (poll : Fin n)
  | looked (poll : Fin n) (look : Look)
  | readExitCode (poll : Fin n)
  | readStdout (poll : Fin n)
  | readStderr (poll : Fin n)
  | announced (poll : Fin n)
  | completed (poll : Fin n)
  | removed (poll : Fin n)
  | ended (poll : Fin n)
  | stopped (poll : Fin n)

section System

variable {ν π : Type} {n : Nat}

def State.start (ν π : Type) (n : Nat) : State ν π n := ⟨.empty, 0, fun _ => none, [], fun _ => .idle⟩

def State.moves (s : State ν π n) (poll : Fin n) (phase : Phase ν π) : State ν π n :=
  { s with poll := Function.update s.poll poll phase }

/-- `fetch_running_telegram_background_tasks`. -/
def runningTasks (tasks : Tasks ν π) : List (Task ν π) := tasks.rows.filter fun task => task.status = none

/-- `insert_telegram_background_task`. -/
def insertTask (dispatch : Dispatch ν) (s : State ν π n) : Option (State ν π n) :=
  let taskId := s.tasks.nextKey s.lastId
  (s.tasks.insert? ⟨taskId, dispatch.chatId, dispatch.messageId, dispatch.commandId, dispatch.commandText, dispatch.pid,
    dispatch.stdoutPath, dispatch.stderrPath, dispatch.taskData, none, none⟩).map fun tasks =>
      { s with tasks := tasks, lastId := taskId }

/-- What `complete_telegram_background_task` writes, whatever the row's status is. -/
def completion (verdict : Verdict ν π) : Table.Amendment (Task.taskId : Task ν π → Nat) (fun _ => (none : Option Unit)) where
  change task := { task with status := some verdict.status, resultJson := verdict.parsed }
  keeps _ := rfl
  shrinks _ := Or.inl rfl

def messageOf (task : Task ν π) (verdict : Verdict ν π) : Message ν π :=
  ⟨task.chatId, verdict.text, task.messageId, verdict.status, task.taskId, task.commandId, task.commandText, task.pid⟩

def readExitCodeFile (rules : OutputRules π) (file : Option String) : Option Int :=
  file.bind fun text => rules.int (strip text)

def readFileSafe (file : Option String) : String := strip (file.getD "")

def step (rules : OutputRules π) (s : State ν π n) : Label ν n → Option (State ν π n)
  | .dispatched dispatch => insertTask dispatch s
  | .wrote path text => some { s with files := Function.update s.files path (some text) }
  | .fetched poll =>
      match s.poll poll with
      | .idle => some (s.moves poll (.listed (runningTasks s.tasks)))
      | _ => none
  | .looked poll look =>
      match s.poll poll with
      | .listed (task :: rest) =>
          match lookAt task (s.files (exitCodePath task.stdoutPath)).isSome look with
          | none => some (s.moves poll (.listed rest))
          | some sight => some (s.moves poll (.looked task sight rest))
      | _ => none
  | .readExitCode poll =>
      match s.poll poll with
      | .looked task sight rest => some (s.moves poll
          (.readCode task sight (readExitCodeFile rules (s.files (exitCodePath task.stdoutPath))) rest))
      | _ => none
  | .readStdout poll =>
      match s.poll poll with
      | .readCode task sight code rest => some (s.moves poll
          (.readOutput task sight code (readFileSafe (s.files task.stdoutPath)) rest))
      | _ => none
  | .readStderr poll =>
      match s.poll poll with
      | .readOutput task sight code stdout rest => some (s.moves poll
          (.judged task (verdictOf rules task sight code stdout (readFileSafe (s.files task.stderrPath))) rest))
      | _ => none
  | .announced poll =>
      match s.poll poll with
      | .judged task verdict rest =>
          some { s.moves poll (.announced task verdict rest) with messages := s.messages ++ [messageOf task verdict] }
      | _ => none
  | .completed poll =>
      match s.poll poll with
      | .announced task verdict rest =>
          some { s.moves poll (.completed [exitCodePath task.stdoutPath, task.stdoutPath, task.stderrPath] rest) with
            tasks := s.tasks.amend task.taskId (completion verdict) }
      | _ => none
  | .removed poll =>
      match s.poll poll with
      | .completed (path :: paths) rest =>
          some { s.moves poll (if paths = [] then .listed rest else .completed paths rest) with
            files := Function.update s.files path none }
      | _ => none
  | .ended poll =>
      match s.poll poll with
      | .listed [] => some (s.moves poll .idle)
      | _ => none
  | .stopped poll => some (s.moves poll .idle)

/-! ## What a poll does to the tasks -/

/-- The ids of the tasks a poll may still write the status of. -/
def Phase.unfinished : Phase ν π → List Nat
  | .idle => []
  | .listed tasks => tasks.map Task.taskId
  | .looked task _ rest => task.taskId :: rest.map Task.taskId
  | .readCode task _ _ rest => task.taskId :: rest.map Task.taskId
  | .readOutput task _ _ _ rest => task.taskId :: rest.map Task.taskId
  | .judged task _ rest => task.taskId :: rest.map Task.taskId
  | .announced task _ rest => task.taskId :: rest.map Task.taskId
  | .completed _ rest => rest.map Task.taskId

/-- No poll lists a task another has listed and not finished with, and none is stopped between its message and the
status it writes. -/
def Apart (s : State ν π n) (label : Label ν n) (_ : State ν π n) : Prop :=
  match label with
  | .fetched poll => ∀ other, other ≠ poll → ∀ task ∈ runningTasks s.tasks, task.taskId ∉ (s.poll other).unfinished
  | .stopped poll => ∀ task verdict rest, s.poll poll ≠ .announced task verdict rest
  | _ => True

/-- Every task has one completion message at most, and one with a final status has the message that announced it. -/
structure ReportedOnce (s : State ν π n) : Prop where
  once : (s.messages.map Message.taskId).Nodup
  told : ∀ task ∈ s.tasks.rows, ∀ final, task.status = some final →
    ∃ message ∈ s.messages, message.taskId = task.taskId ∧ message.status = final

/-- A final status never changes. -/
def FinalStays (s next : State ν π n) : Prop :=
  ∀ taskId task final, s.tasks.lookup taskId = some task → task.status = some final →
    ∃ after, next.tasks.lookup taskId = some after ∧ after.status = some final

/-! ## The polls as workers over open items -/

def Phase.abstract : Phase ν π → ReportOnce.Phase Nat FinalStatus
  | .idle => .idle
  | .listed tasks => .holding (tasks.map Task.taskId)
  | .looked task _ rest => .holding (task.taskId :: rest.map Task.taskId)
  | .readCode task _ _ rest => .holding (task.taskId :: rest.map Task.taskId)
  | .readOutput task _ _ _ rest => .holding (task.taskId :: rest.map Task.taskId)
  | .judged task _ rest => .holding (task.taskId :: rest.map Task.taskId)
  | .announced task verdict rest => .reported task.taskId verdict.status (rest.map Task.taskId)
  | .completed _ rest => .holding (rest.map Task.taskId)

theorem Phase.held_abstract (phase : Phase ν π) : phase.abstract.held = phase.unfinished := by
  cases phase <;> rfl

def State.abstract (s : State ν π n) : ReportOnce.State Nat FinalStatus n where
  status taskId := (s.tasks.lookup taskId).map Task.status
  reports := s.messages.map fun message => (message.taskId, message.status)
  worker poll := (s.poll poll).abstract

variable {rules : OutputRules π} {s next : State ν π n} {label : Label ν n} {poll : Fin n} {phase : Phase ν π}

theorem abstract_moves (s : State ν π n) (poll : Fin n) (phase : Phase ν π) :
    (s.moves poll phase).abstract = s.abstract.moves poll phase.abstract := by
  unfold State.abstract State.moves ReportOnce.State.moves
  congr 1
  funext other
  dsimp only
  by_cases same : other = poll
  · rw [same, Function.update_self, Function.update_self]
  · rw [Function.update_of_ne same, Function.update_of_ne same]

/-- A move that the abstract worker does not see. -/
theorem abstract_moves_same (same : phase.abstract = (s.poll poll).abstract) :
    (s.moves poll phase).abstract = s.abstract := by
  rw [abstract_moves, same]
  unfold ReportOnce.State.moves
  rw [show (s.poll poll).abstract = s.abstract.worker poll from rfl, Function.update_eq_self]

theorem worker_abstract : s.abstract.worker poll = (s.poll poll).abstract := rfl

theorem abstract_insertTask {dispatch : Dispatch ν} (inserted : insertTask dispatch s = some next) :
    ReportOnce.Enabled s.abstract (.opened (s.tasks.nextKey s.lastId)) next.abstract := by
  obtain ⟨tasks, accepted, rfl⟩ := Option.map_eq_some_iff.mp inserted
  have fresh := s.tasks.lookup_nextKey s.lastId
  refine ⟨congrArg (Option.map Task.status) fresh, ?_⟩
  unfold State.abstract
  congr 1
  funext taskId
  dsimp only
  rw [Table.lookup_insert? accepted]
  dsimp only
  by_cases own : s.tasks.nextKey s.lastId = taskId
  · rw [if_pos own, ← own, Function.update_self]
    rfl
  · rw [if_neg own, Function.update_of_ne (Ne.symm own)]

theorem enabled_fetched (idle : s.poll poll = .idle) :
    ReportOnce.Enabled s.abstract (.fetched poll ((runningTasks s.tasks).map Task.taskId))
      (s.moves poll (.listed (runningTasks s.tasks))).abstract := by
  refine ⟨by rw [worker_abstract, idle]; rfl, ?_, ?_, abstract_moves s poll _⟩
  · exact s.tasks.keys_nodup.sublist (List.filter_sublist.map Task.taskId)
  · intro taskId member
    obtain ⟨task, among, rfl⟩ := List.mem_map.mp member
    obtain ⟨row, running⟩ := List.mem_filter.mp among
    change (s.tasks.lookup task.taskId).map Task.status = _
    rw [Table.lookup_of_mem row, Option.map_some, of_decide_eq_true running]

variable {task : Task ν π} {verdict : Verdict ν π} {rest : List (Task ν π)}

theorem enabled_announced (judged : s.poll poll = .judged task verdict rest) :
    ReportOnce.Enabled s.abstract (.reported poll verdict.status)
      { s.moves poll (.announced task verdict rest) with messages := s.messages ++ [messageOf task verdict] }.abstract := by
  refine ⟨task.taskId, rest.map Task.taskId, by rw [worker_abstract, judged]; rfl, ?_⟩
  have workers := congrArg ReportOnce.State.worker (abstract_moves s poll (.announced task verdict rest))
  have reports : (s.messages ++ [messageOf task verdict]).map (fun message => (message.taskId, message.status)) =
      s.abstract.reports ++ [(task.taskId, verdict.status)] := List.map_append
  exact (ReportOnce.State.mk.injEq ..).mpr ⟨rfl, reports, workers⟩

theorem enabled_completed {paths : List String} (known : (s.tasks.lookup task.taskId).isSome = true)
    (announced : s.poll poll = .announced task verdict rest) :
    ReportOnce.Enabled s.abstract (.recorded poll)
      { s.moves poll (.completed paths rest) with
        tasks := s.tasks.amend task.taskId (completion verdict) }.abstract := by
  refine ⟨task.taskId, verdict.status, rest.map Task.taskId, by rw [worker_abstract, announced]; rfl, ?_⟩
  have workers := congrArg ReportOnce.State.worker (abstract_moves s poll (.completed paths rest))
  have status : (fun taskId => ((s.tasks.amend task.taskId (completion verdict)).lookup taskId).map Task.status) =
      Function.update s.abstract.status task.taskId (some (some verdict.status)) := by
    funext taskId
    rw [Table.lookup_amend]
    by_cases own : taskId = task.taskId
    · obtain ⟨row, found⟩ := Option.isSome_iff_exists.mp known
      rw [own, Function.update_self, found]
      simp [completion]
    · rw [Function.update_of_ne own]
      simp only [own, if_false, Option.map_id_fun', id_eq]
      rfl
  exact (ReportOnce.State.mk.injEq ..).mpr ⟨status, rfl, workers⟩

/-- A step is one of the workers' steps, or none of them; apart here is apart there. -/
theorem step_refines (inv : ReportOnce.Inv s.abstract) (enabled : step rules s label = some next) :
    next.abstract = s.abstract ∨
      ∃ abstractStep, ReportOnce.Enabled s.abstract abstractStep next.abstract ∧
        (Apart s label next → ReportOnce.Apart s.abstract abstractStep) := by
  cases label with
  | dispatched dispatch => exact Or.inr ⟨_, abstract_insertTask enabled, fun _ => trivial⟩
  | wrote path text =>
    obtain rfl := Option.some.inj enabled
    exact Or.inl rfl
  | fetched poll =>
    cases held : s.poll poll <;> simp only [step, held, reduceCtorEq] at enabled
    obtain rfl := Option.some.inj enabled
    refine Or.inr ⟨_, enabled_fetched held, fun apart other different taskId member => ?_⟩
    obtain ⟨task, among, rfl⟩ := List.mem_map.mp member
    rw [worker_abstract, Phase.held_abstract]
    exact apart other different task among
  | looked poll look =>
    cases held : s.poll poll with
    | listed tasks =>
      cases tasks with
      | nil => simp [step, held] at enabled
      | cons task rest =>
        cases sight : lookAt task (s.files (exitCodePath task.stdoutPath)).isSome look with
        | none =>
          simp only [step, held, sight] at enabled
          obtain rfl := Option.some.inj enabled
          refine Or.inr ⟨.skipped poll, ⟨task.taskId, rest.map Task.taskId, ?_, abstract_moves s poll _⟩, fun _ => trivial⟩
          rw [worker_abstract, held]
          rfl
        | some seen =>
          simp only [step, held, sight] at enabled
          obtain rfl := Option.some.inj enabled
          exact Or.inl (abstract_moves_same (by rw [held]; rfl))
    | _ => simp [step, held] at enabled
  | readExitCode poll | readStdout poll | readStderr poll =>
    cases held : s.poll poll <;> simp only [step, held, reduceCtorEq] at enabled
    obtain rfl := Option.some.inj enabled
    exact Or.inl (abstract_moves_same (by rw [held]; rfl))
  | announced poll =>
    cases held : s.poll poll <;> simp only [step, held, reduceCtorEq] at enabled
    obtain rfl := Option.some.inj enabled
    exact Or.inr ⟨_, enabled_announced held, fun _ => trivial⟩
  | completed poll =>
    cases held : s.poll poll <;> simp only [step, held, reduceCtorEq] at enabled
    rename_i task verdict rest
    obtain rfl := Option.some.inj enabled
    have known : (s.tasks.lookup task.taskId).isSome = true := by
      have isOpen := (inv.fits poll).stillOpen task.taskId (by rw [worker_abstract, held]; exact List.mem_cons_self)
      obtain ⟨row, found, _⟩ := Option.map_eq_some_iff.mp isOpen
      rw [found]
      rfl
    exact Or.inr ⟨_, enabled_completed known held, fun _ => trivial⟩
  | removed poll =>
    cases held : s.poll poll with
    | completed paths rest =>
      cases paths with
      | nil => simp [step, held] at enabled
      | cons path paths =>
        simp only [step, held] at enabled
        obtain rfl := Option.some.inj enabled
        have same : (if paths = [] then Phase.listed rest else .completed paths rest).abstract =
            (s.poll poll).abstract := by
          rw [held]
          split <;> rfl
        exact Or.inl (abstract_moves_same same)
    | _ => simp [step, held] at enabled
  | ended poll =>
    cases held : s.poll poll with
    | listed tasks =>
      cases tasks with
      | nil =>
        simp only [step, held] at enabled
        obtain rfl := Option.some.inj enabled
        refine Or.inr ⟨.stopped poll, abstract_moves s poll _, fun _ => ?_⟩
        change (s.poll poll).abstract.report = none
        rw [held]
        rfl
      | cons task rest => simp [step, held] at enabled
    | _ => simp [step, held] at enabled
  | stopped poll =>
    obtain rfl := Option.some.inj enabled
    refine Or.inr ⟨.stopped poll, abstract_moves s poll _, fun apart => ?_⟩
    change (s.poll poll).abstract.report = none
    cases held : s.poll poll with
    | announced task verdict rest => exact absurd held (apart task verdict rest)
    | _ => rfl

theorem inv_step (enabled : step rules s label = some next) (apart : Apart s label next)
    (inv : ReportOnce.Inv s.abstract) : ReportOnce.Inv next.abstract := by
  rcases step_refines inv enabled with same | ⟨abstractStep, allowed, apart_of⟩
  · rw [same]
    exact inv
  · exact ReportOnce.inv_step allowed (apart_of apart) inv

theorem outcomesStay_step (enabled : step rules s label = some next) (inv : ReportOnce.Inv s.abstract) :
    ReportOnce.OutcomesStay s.abstract next.abstract := by
  rcases step_refines inv enabled with same | ⟨abstractStep, allowed, _⟩
  · rw [same]
    exact fun _ _ known => known
  · exact ReportOnce.outcomesStay_step allowed inv

theorem reportedOnce_of_abstract (reported : ReportOnce.Reported s.abstract) : ReportedOnce s := by
  constructor
  · have once := reported.once
    unfold State.abstract at once
    rw [List.map_map] at once
    exact once
  · intro task member final status
    have known : s.abstract.status task.taskId = some (some final) := by
      change (s.tasks.lookup task.taskId).map Task.status = _
      rw [Table.lookup_of_mem member, Option.map_some, status]
    obtain ⟨message, among, same⟩ := List.mem_map.mp (reported.told _ _ known)
    obtain ⟨own, said⟩ := Prod.mk.inj same
    exact ⟨message, among, own, said⟩

theorem finalStays_of_abstract (stay : ReportOnce.OutcomesStay s.abstract next.abstract) : FinalStays s next := by
  intro taskId task final found status
  have known : s.abstract.status taskId = some (some final) := by
    change (s.tasks.lookup taskId).map Task.status = _
    rw [found, Option.map_some, status]
  obtain ⟨after, there, final⟩ := Option.map_eq_some_iff.mp (stay taskId final known)
  exact ⟨after, there, final⟩

/-- While no poll lists what another has not finished with, and none is stopped between a message and its status, each
task is reported once and its final status is the announced one and stays. -/
theorem every_reported_once (rules : OutputRules π) (labels : List (Label ν n))
    (apart : Every (step rules) Apart (State.start ν π n) labels) :
    Every (step rules) (fun s _ next => ReportedOnce next ∧ FinalStays s next) (State.start ν π n) labels := by
  have initial : ReportOnce.Inv (State.start ν π n).abstract := ReportOnce.inv_start
  refine Every.mono (fun s label next enabled apart => inv_step enabled apart) ?_ initial apart
  intro s label next enabled inv apart
  exact ⟨reportedOnce_of_abstract (inv_step enabled apart inv).toReported,
    finalStays_of_abstract (outcomesStay_step enabled inv)⟩

end System

/-! ## Two polls of one task -/

def plainRules : OutputRules Unit where
  int text := if text = "0" then some 0 else none
  parseJson _ := none
  statusOf _ := ""
  errorFrom stderr _ := stderr

/-- A command that says so when it has finished. -/
def restoreDispatch : Dispatch Unit where
  chatId := "100"
  messageId := some 7
  commandId := 3
  commandText := "/restore"
  pid := 4242
  stdoutPath := "restore.out"
  stderrPath := "restore.err"
  taskData := ⟨1800, (), "Restored.", "Failed.", "Timed out.", "restore finished", false⟩

/-- The process has ended. -/
def gone : Look := ⟨true, false, none, some 60⟩

/-- A poll reads the files of a finished command, reports it and removes them. -/
def passOf {n : Nat} (poll : Fin n) : List (Label Unit n) :=
  [.looked poll gone, .readExitCode poll, .readStdout poll, .readStderr poll, .announced poll, .completed poll]

/-- Both polls list the task; the second comes to it when the first has removed its files. -/
def sharedTask : List (Label Unit 2) :=
  [.dispatched restoreDispatch, .fetched 0, .fetched 1, .wrote "restore.out" "restore finished", .wrote "restore.out.rc" "0"] ++
    passOf 0 ++ [.removed 0, .removed 0, .removed 0] ++ passOf 1

theorem shared_task_ends : (exec (step plainRules) (State.start Unit Unit 2) sharedTask).map (fun s =>
    (s.messages.map fun message => (message.taskId, message.status), s.tasks.rows.map Task.status)) =
      some ([(1, .done), (1, .failed)], [some .failed]) := by
  decide +kernel

/-- The chat is told that the task is done and that it failed, and failed is what stays. -/
theorem shared_task_is_reported_twice : ¬∀ (ν π : Type) (n : Nat) (rules : OutputRules π) (labels : List (Label ν n)),
    Every (step rules) (fun s _ next => ReportedOnce next ∧ FinalStays s next) (State.start ν π n) labels := by
  intro reported
  obtain ⟨final, run, told⟩ := Option.map_eq_some_iff.mp shared_task_ends
  have every := reported Unit Unit 2 plainRules sharedTask
  have split : sharedTask = sharedTask.dropLast ++ [.completed 1] := rfl
  rw [split] at run every
  obtain ⟨_, _, reportedOnce, _⟩ := every.ends run
  have once := reportedOnce.once
  have ids : final.messages.map Message.taskId = [1, 1] := by
    have pairs := congrArg (List.map Prod.fst) (Prod.mk.inj told).1
    rw [List.map_map] at pairs
    exact pairs
  rw [ids] at once
  exact absurd once (by decide)

/-- One poll alone reports it once. -/
theorem alone_reported_once : ((exec (step plainRules) (State.start Unit Unit 1)
      ([.dispatched restoreDispatch, .fetched 0] ++ passOf 0)).map fun s => s.messages.length) = some 1 ∧
    Every (step plainRules) (fun s _ next => ReportedOnce next ∧ FinalStays s next) (State.start Unit Unit 1)
      ([.dispatched restoreDispatch, .fetched 0] ++ passOf 0) := by
  refine ⟨by decide +kernel, every_reported_once plainRules _ ?_⟩
  have never : ∀ label ∈ [Label.dispatched restoreDispatch, .fetched 0] ++ passOf (0 : Fin 1),
      ∀ poll, label ≠ .stopped poll := by
    simp [passOf]
  refine Every.imp ?_ (every_of_forall_mem _ never)
  intro s label next _ unstopped
  cases label with
  | fetched poll => exact fun other different => absurd (Subsingleton.elim other poll) different
  | stopped poll => exact absurd rfl (unstopped poll)
  | _ => trivial

end DbaBrain.Telegram.BackgroundTasks
