import DbaBrain.Foundation.Json
import DbaBrain.Foundation.ReadCommitted

/-!
# The question a person is waiting on, and the live step of a run

`upsert_telegram_conversation_state` replaces what is waiting and inserts the
new state; `start_telegram_workflow_step` abandons the active step and inserts
the next one.  Calls that do not overlap, which a store with one writer never
lets them, keep one of each; two that overlap leave two states waiting, or one
of them fails on the step number.
-/

namespace DbaBrain.Telegram.LiveQuestions

open DbaBrain.Foundation DbaBrain.Foundation.Execution DbaBrain.Foundation.ReadCommitted

/-! ## Conversation states -/

inductive ConversationStatus
  | waiting
  | replaced
  | done
  | error
  | cancelled
  deriving DecidableEq

/-- A row of `telegram_conversation_states`. -/
structure ConversationState where
  stateId : Nat
  chatId : String
  userId : String
  commandId : Int
  commandText : String
  stateKey : String
  status : ConversationStatus
  waitAfterMessageId : Int
  sourceTelegramCommandMessageId : Option Int
  stateJson : Json
  updatedAt : Option Int

/-- The person is asked one question at a time; nothing is numbered and no index is unique. -/
def conversations : Shape ConversationState (String × String) where
  id := ConversationState.stateId
  key row := (row.chatId, row.userId)
  live row := row.status = .waiting
  number _ := 0
  numbered := false
  close now row := { row with status := .replaced, updatedAt := some now }
  close_key _ _ := rfl
  close_number _ _ := rfl
  close_live _ _ := rfl

/-- The arguments of `upsert_telegram_conversation_state`, and when it runs. -/
structure Upsert where
  now : Int
  chatId : String
  userId : String
  commandId : Int
  commandText : String
  stateKey : String
  waitAfterMessageId : Int
  sourceTelegramCommandMessageId : Option Int
  stateData : Option Json

def upsertTelegramConversationState (call : Upsert) : Request conversations where
  key := (call.chatId, call.userId)
  now := call.now
  make id _ :=
    { stateId := id
      chatId := call.chatId
      userId := call.userId
      commandId := call.commandId
      commandText := call.commandText
      stateKey := call.stateKey
      status := .waiting
      waitAfterMessageId := call.waitAfterMessageId
      sourceTelegramCommandMessageId := call.sourceTelegramCommandMessageId
      stateJson := call.stateData.getD (.object [])
      updatedAt := none }
  make_key _ _ := rfl
  make_live _ _ := rfl
  make_number numbered := by cases numbered

/-! ## Workflow steps -/

inductive StepStatus
  | active
  | answered
  | rejected
  | skipped
  | back
  | cancelled
  | abandoned
  deriving DecidableEq

/-- A row of `telegram_workflow_steps`. -/
structure WorkflowStep where
  workflowStepId : Nat
  runKey : String
  chatId : String
  userId : String
  commandId : Int
  commandText : String
  stepNo : Nat
  parameterName : String
  parameterPosition : Int
  status : StepStatus
  promptText : String
  options : List Json
  controls : List Json
  isSecret : Bool
  stateId : Option Int
  promptSendTlgmsgId : Option Int
  askedAt : Int
  answeredAt : Option Int

/-- `UNIQUE (run_key, step_no)`. -/
def steps : Shape WorkflowStep String where
  id := WorkflowStep.workflowStepId
  key := WorkflowStep.runKey
  live row := row.status = .active
  number := WorkflowStep.stepNo
  numbered := true
  close now row := { row with status := .abandoned, answeredAt := some now }
  close_key _ _ := rfl
  close_number _ _ := rfl
  close_live _ _ := rfl

/-- The arguments of `start_telegram_workflow_step`, and when it runs. -/
structure Start where
  askedAt : Int
  runKey : String
  chatId : String
  userId : String
  commandId : Int
  commandText : String
  parameterName : String
  parameterPosition : Int
  promptText : String
  options : Option (List Json)
  controls : Option (List Json)
  isSecret : Bool
  stateId : Option Int
  promptSendTlgmsgId : Option Int

def startTelegramWorkflowStep (call : Start) : Request steps where
  key := call.runKey
  now := call.askedAt
  make id lastStep :=
    { workflowStepId := id
      runKey := call.runKey
      chatId := call.chatId
      userId := call.userId
      commandId := call.commandId
      commandText := call.commandText
      stepNo := lastStep + 1
      parameterName := call.parameterName
      parameterPosition := call.parameterPosition
      status := .active
      promptText := call.promptText
      options := call.options.getD []
      controls := call.controls.getD []
      isSecret := call.isSecret
      stateId := call.stateId
      promptSendTlgmsgId := call.promptSendTlgmsgId
      askedAt := call.askedAt
      answeredAt := none }
  make_key _ _ := rfl
  make_live _ _ := rfl
  make_number _ _ _ := rfl

/-! ## One live question -/

def OneWaiting (rows : List ConversationState) : Prop :=
  ∀ chatId userId, (rows.filter fun row =>
    (row.chatId = chatId && row.userId = userId) && row.status = .waiting).length ≤ 1

def OneActive (rows : List WorkflowStep) : Prop :=
  ∀ runKey, (rows.filter fun row => row.runKey = runKey && row.status = .active).length ≤ 1

def StepsNumbered (rows : List WorkflowStep) : Prop :=
  ∀ runKey, ((rows.filter fun row => row.runKey = runKey).map WorkflowStep.stepNo) =
    List.range' 1 (rows.filter fun row => row.runKey = runKey).length

theorem whole_conversations {rows : List ConversationState} : Whole conversations rows ↔ OneWaiting rows := by
  have counted (chatId userId : String) : (liveIds conversations rows (chatId, userId)).length =
      (rows.filter fun row => (row.chatId = chatId && row.userId = userId) && row.status = .waiting).length := by
    unfold liveIds
    rw [List.length_map]
    congr 2
    funext row
    have pairs : (decide ((row.chatId, row.userId) = (chatId, userId))) =
        (decide (row.chatId = chatId) && decide (row.userId = userId)) := by
      rw [Bool.eq_iff_iff, Bool.and_eq_true, decide_eq_true_eq, decide_eq_true_eq, decide_eq_true_eq, Prod.mk.injEq]
    exact congrArg (· && _) pairs
  constructor
  · intro whole chatId userId
    rw [← counted]
    exact whole.one (chatId, userId)
  · intro one
    refine ⟨?_, nofun⟩
    rintro ⟨chatId, userId⟩
    rw [counted]
    exact one chatId userId

theorem whole_steps {rows : List WorkflowStep} : Whole steps rows ↔ OneActive rows ∧ StepsNumbered rows := by
  constructor
  · intro whole
    constructor
    · intro runKey
      have one := whole.one runKey
      unfold liveIds at one
      rw [List.length_map] at one
      exact one
    · intro runKey
      have numbers := whole.numbers rfl runKey
      unfold numbersOf at numbers
      rw [List.length_map] at numbers
      exact numbers
  · rintro ⟨one, numbers⟩
    refine ⟨?_, ?_⟩
    · intro runKey
      unfold liveIds
      rw [List.length_map]
      exact one runKey
    · intro _ runKey
      unfold numbersOf
      rw [List.length_map]
      exact numbers runKey

/-- Calls for one person, and for one run, that do not overlap keep one question waiting and one step active, number the
steps one after another, and none of them fails. -/
theorem oneLiveQuestion (n lastId : Nat) :
    (∀ (calls : Fin n → Upsert) (rows : List ConversationState) labels final,
      OneWaiting rows →
      Every (step conversations (upsertTelegramConversationState ∘ calls))
        (Alone conversations (upsertTelegramConversationState ∘ calls)) (State.start rows lastId) labels →
      exec (step conversations (upsertTelegramConversationState ∘ calls)) (State.start rows lastId) labels = some final →
      OneWaiting final.rows ∧ ∀ call, final.phase call ≠ .failed) ∧
    ∀ (calls : Fin n → Start) (rows : List WorkflowStep) labels final,
      OneActive rows → StepsNumbered rows →
      Every (step steps (startTelegramWorkflowStep ∘ calls)) (Alone steps (startTelegramWorkflowStep ∘ calls))
        (State.start rows lastId) labels →
      exec (step steps (startTelegramWorkflowStep ∘ calls)) (State.start rows lastId) labels = some final →
      OneActive final.rows ∧ StepsNumbered final.rows ∧ ∀ call, final.phase call ≠ .failed := by
  constructor
  · intro calls rows labels final one alone run
    obtain ⟨whole, ended⟩ := whole_of_run (whole_conversations.mpr one) alone run
    exact ⟨whole_conversations.mp whole, ended⟩
  · intro calls rows labels final one numbers alone run
    obtain ⟨whole, ended⟩ := whole_of_run (whole_steps.mpr ⟨one, numbers⟩) alone run
    obtain ⟨active, numbered⟩ := whole_steps.mp whole
    exact ⟨active, numbered, ended⟩

/-! ## Calls that overlap -/

def question (waitAfterMessageId : Int) : Upsert where
  now := 0
  chatId := "-100"
  userId := "7"
  commandId := 3
  commandText := "/spbot_run_sql_task"
  stateKey := "host"
  waitAfterMessageId := waitAfterMessageId
  sourceTelegramCommandMessageId := none
  stateData := none

def ask (parameterName : String) : Start where
  askedAt := 0
  runKey := "cmd-1"
  chatId := "-100"
  userId := "7"
  commandId := 3
  commandText := "/spbot_run_sql_task"
  parameterName := parameterName
  parameterPosition := 1
  promptText := ""
  options := none
  controls := none
  isSecret := false
  stateId := none
  promptSendTlgmsgId := none

def twoQuestions : Fin 2 → Upsert := ![question 10, question 11]

def twoSteps : Fin 2 → Start := ![ask "host", ask "port"]

local instance twoNeZero : NeZero 2 := ⟨by decide⟩

/-- Both begin before either has committed: two questions wait. -/
def bothAsk : List (ReadCommitted.Step 2) :=
  [.began 0, .began 1, .closed 0, .closed 1, .inserted 0, .inserted 1, .committed 0, .committed 1]

/-- Both read the last number before either has inserted: the second insert is refused. -/
def bothCount : List (ReadCommitted.Step 2) :=
  [.began 0, .began 1, .closed 0, .closed 1, .counted 0, .counted 1, .inserted 0, .committed 0, .inserted 1]

theorem overlapping_calls :
    (¬∀ (calls : Fin 2 → Upsert) labels final,
      exec (step conversations (upsertTelegramConversationState ∘ calls)) (State.start [] 0) labels = some final →
        OneWaiting final.rows) ∧
    ¬∀ (calls : Fin 2 → Start) labels final,
      exec (step steps (startTelegramWorkflowStep ∘ calls)) (State.start [] 0) labels = some final →
        ∀ call, final.phase call ≠ .failed := by
  constructor
  · intro kept
    have both := kept twoQuestions bothAsk _ rfl "-100" "7"
    exact absurd both (by decide)
  · intro kept
    exact kept twoSteps bothCount _ rfl 1 rfl

/-- One after the other. -/
def inTurnQuestions : List (ReadCommitted.Step 2) :=
  [.began 0, .closed 0, .inserted 0, .committed 0, .began 1, .closed 1, .inserted 1, .committed 1]

def inTurnSteps : List (ReadCommitted.Step 2) :=
  [.began 0, .closed 0, .counted 0, .inserted 0, .committed 0, .began 1, .closed 1, .counted 1, .inserted 1,
    .committed 1]

theorem calls_in_turn :
    (∃ final, exec (step conversations (upsertTelegramConversationState ∘ twoQuestions)) (State.start [] 0)
      inTurnQuestions = some final ∧ OneWaiting final.rows) ∧
    ∃ final, exec (step steps (startTelegramWorkflowStep ∘ twoSteps)) (State.start [] 0) inTurnSteps = some final ∧
      OneActive final.rows := by
  constructor
  · refine ⟨_, rfl, ((oneLiveQuestion 2 0).1 twoQuestions [] inTurnQuestions _ ?_ (by decide) rfl).1⟩
    intro _ _
    exact Nat.zero_le 1
  · refine ⟨_, rfl, ((oneLiveQuestion 2 0).2 twoSteps [] inTurnSteps _ ?_ ?_ (by decide) rfl).1⟩
    · intro _
      exact Nat.zero_le 1
    · intro _
      rfl

end DbaBrain.Telegram.LiveQuestions
