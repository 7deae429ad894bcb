import DbaBrain.Telegram.MessageParts

/-!
# A chat's rows under Telegram's rate limit

A send pass takes a chat's oldest rows one after another.  A part the chat is
asked to wait for is waited for only when parts of its call have landed; else
the row goes back to the queue with what was delivered of it, and the next pass
resumes there.
-/

namespace DbaBrain.Telegram.RateLimits

open DbaBrain.Telegram.MessageParts

/-! ## Rows and calls -/

/-- What a row is of; `documentReady` says that its file is there and its timeout a number. -/
structure Content where
  chatId : String
  messageText : String
  documentPath : String
  documentReady : Bool
  replyMessageId : Option Int
  replyMarkup : Option String
  messageType : Option String

/-- What `metadata_json` remembers of earlier passes. -/
structure Resume where
  partsDelivered : Nat
  documentDelivered : Bool
  documentMessageId : Option Int

inductive SendStatus
  | pending
  | sent
  | failed
  deriving DecidableEq

structure Row where
  id : Nat
  content : Content
  resume : Resume
  status : SendStatus
  messageId : Option Int
  failText : Option String

/-- One call, as the chat receives it. -/
inductive Delivery
  | document (row : Nat) (path caption : String) (replyTo : Option Int)
  | part (row index : Nat) (text : String) (replyTo : Option Int) (markup : Option String)

/-- A 429: the seconds Telegram asks for, and its text. -/
structure Limit where
  retryAfter : ℚ
  text : String

/-- What decides the calls: the emoji `decorate_message` puts before a part, the ids Telegram gives a chat's messages
one after another, and the calls it limits. -/
structure Api where
  decorate : String → Option String → String
  messageId : Nat → Int
  messageId_injective : Function.Injective messageId
  limits : Nat → Option Limit

/-- What the chat has received, and how many calls were made to it. -/
structure Chat where
  received : List Delivery
  attempts : Nat

/-- How a send ends without a message: a limit handed back, or a refusal before any call. -/
inductive Stop
  | limited (limit : Limit) (partsDelivered : Nat)
  | refused (text : String)

def maxRateLimitWaitSeconds : ℚ := 60

def rateLimitAttempts : Nat := 3

section Sending

variable (api : Api)

def callTelegramApi (delivery : Delivery) (chat : Chat) : Except Limit Int × Chat :=
  match api.limits chat.attempts with
  | none => (.ok (api.messageId chat.received.length), ⟨chat.received ++ [delivery], chat.attempts + 1⟩)
  | some limit => (.error limit, { chat with attempts := chat.attempts + 1 })

/-- `_send_part_honouring_rate_limit`, with the attempts that are left. -/
def sendPart (wait : Bool) (delivery : Delivery) : Nat → Chat → Except Limit Int × Chat
  | 0, chat => callTelegramApi api delivery chat
  | left + 1, chat =>
      match callTelegramApi api delivery chat with
      | (.ok messageId, after) => (.ok messageId, after)
      | (.error limit, after) =>
          if wait = false ∨ maxRateLimitWaitSeconds < limit.retryAfter then (.error limit, after)
          else sendPart wait delivery left after

/-- The parts from `index` on: the first one sent gives the message its id. -/
def sendParts (waitBeforeFirstPart : Bool) (startPart : Nat) :
    Nat → List Delivery → Option Int → Chat → Except Stop (Option Int) × Chat
  | _, [], firstResult, chat => (.ok firstResult, chat)
  | index, part :: parts, firstResult, chat =>
      if index < startPart then sendParts waitBeforeFirstPart startPart (index + 1) parts firstResult chat
      else
        match sendPart api (waitBeforeFirstPart || decide (startPart < index)) part (rateLimitAttempts - 1) chat with
        | (.ok messageId, after) =>
            sendParts waitBeforeFirstPart startPart (index + 1) parts (firstResult.or (some messageId)) after
        | (.error limit, after) => (.error (.limited limit index), after)

/-- The parts of a text as they are sent: the quote on the first, the buttons on the last. -/
def partsOf (row : Nat) (text : String) (messageType : Option String) (replyTo : Option Int) (markup : Option String) :
    List Delivery :=
  let parts := splitTelegramMessage text
  parts.mapIdx fun index part =>
    .part row index (api.decorate part messageType) (if index = 0 then replyTo else none)
      (if index + 1 = parts.length then markup else none)

def sendMessage (row : Nat) (content : Content) (text : String) (replyTo : Option Int) (markup : Option String)
    (waitBeforeFirstPart : Bool) (startPart : Nat) (chat : Chat) : Except Stop (Option Int) × Chat :=
  if content.chatId = "" then (.error (.refused "Telegram chat id is empty."), chat)
  else if text = "" then (.error (.refused "Telegram message text is empty."), chat)
  else
    sendParts api waitBeforeFirstPart startPart 0 (partsOf api row text content.messageType replyTo markup) none chat

/-- `send_document`, which waits for no limit. -/
def sendDocument (row : Nat) (content : Content) (caption : String) (chat : Chat) : Except Stop Int × Chat :=
  if content.chatId = "" then (.error (.refused "Telegram chat id is empty."), chat)
  else if content.documentReady = false then (.error (.refused ("Telegram document not found: " ++ content.documentPath)), chat)
  else
    match callTelegramApi api (.document row content.documentPath caption content.replyMessageId) chat with
    | (.ok messageId, after) => (.ok messageId, after)
    | (.error limit, after) => (.error (.limited limit 0), after)

/-! ## One row -/

def sendFollowUp (row : Nat) (content : Content) (waitOnRateLimit : Bool) (resume : Resume) (chat : Chat) :
    Except Stop (Option Int) × Resume × Chat :=
  let followUp := (documentCaption content.messageText).2
  if followUp = "" then (.ok resume.documentMessageId, resume, chat)
  else
    match sendMessage api row content followUp none none waitOnRateLimit resume.partsDelivered chat with
    | (.ok _, after) => (.ok resume.documentMessageId, resume, after)
    | (.error stop, after) => (.error stop, resume, after)

def attempt (row : Nat) (content : Content) (waitOnRateLimit : Bool) (resume : Resume) (chat : Chat) :
    Except Stop (Option Int) × Resume × Chat :=
  if content.documentPath = "" then
    match sendMessage api row content content.messageText content.replyMessageId content.replyMarkup waitOnRateLimit
        resume.partsDelivered chat with
    | (.ok messageId, after) => (.ok messageId, resume, after)
    | (.error stop, after) => (.error stop, resume, after)
  else if resume.documentDelivered then sendFollowUp api row content waitOnRateLimit resume chat
  else
    match sendDocument api row content (documentCaption content.messageText).1 chat with
    | (.ok messageId, after) =>
        sendFollowUp api row content waitOnRateLimit
          { resume with documentDelivered := true, documentMessageId := some messageId } after
    | (.error stop, after) => (.error stop, resume, after)

/-- What becomes of a row that is attempted. -/
inductive Outcome
  | sent (messageId : Option Int)
  | failed (text : String)
  | rateLimited (limit : Limit)

/-- The attempts of `send_one_message`: a limit is handed back at once when it is not waited for, and else counts as an
attempt like a refusal; the last failure decides. -/
def sendAttempts (row : Nat) (content : Content) (waitOnRateLimit : Bool) :
    Nat → Outcome → Resume → Chat → Outcome × Resume × Chat
  | 0, last, resume, chat => (last, resume, chat)
  | left + 1, _, resume, chat =>
      match attempt api row content waitOnRateLimit resume chat with
      | (.ok messageId, after, later) => (.sent messageId, after, later)
      | (.error (.limited limit partsDelivered), after, later) =>
          let kept := { after with partsDelivered := max after.partsDelivered partsDelivered }
          if waitOnRateLimit then sendAttempts row content waitOnRateLimit left (.rateLimited limit) kept later
          else (.rateLimited limit, kept, later)
      | (.error (.refused text), after, later) => sendAttempts row content waitOnRateLimit left (.failed text) after later

/-- The row as its outcome leaves it; a failed row's text says when its document was delivered, and only a row handed
back is written what was delivered of it. -/
def Row.settle (row : Row) (outcome : Outcome) (resume : Resume) : Row :=
  match outcome with
  | .sent messageId => { row with status := .sent, messageId := messageId }
  | .failed text =>
      { row with
        status := .failed
        failText := some (if resume.documentDelivered then
          "the document was delivered; the text that follows it was not: " ++ text else text) }
  | .rateLimited limit => { row with resume := resume, failText := some limit.text }

def sendOneMessage (waitOnRateLimit : Bool) (retryCount : Nat) (row : Row) (chat : Chat) : Outcome × Row × Chat :=
  let (outcome, resume, after) :=
    sendAttempts api row.id row.content waitOnRateLimit (max 1 retryCount) (.failed "") row.resume chat
  (outcome, row.settle outcome resume, after)

/-! ## Passes -/

/-- One pass over the chat: whether a pause keeps it away, how many of the oldest rows it takes, and how many of them it
starts before its budget is spent. -/
structure Pass where
  paused : Bool
  taken : Nat
  started : Nat
  retryCount : Nat

/-- The chat's rows, oldest first, and what the chat received; a row is in flight only while it is being sent. -/
structure Queue where
  rows : List Row
  chat : Chat

/-- `send_chat`: the first pending rows in order, up to the first limit. -/
def sendChat (retryCount : Nat) : Nat → List Row → Chat → List Row × Chat
  | _, [], chat => ([], chat)
  | count, row :: rows, chat =>
      if row.status ≠ .pending then
        let others := sendChat retryCount count rows chat
        (row :: others.1, others.2)
      else
        match count with
        | 0 => (row :: rows, chat)
        | left + 1 =>
            match sendOneMessage api false retryCount row chat with
            | (.rateLimited _, after, later) => (after :: rows, later)
            | (_, after, later) =>
                let others := sendChat retryCount left rows later
                (after :: others.1, others.2)

def sendPass (queue : Queue) (pass : Pass) : Queue :=
  if pass.paused then queue
  else
    let sent := sendChat api pass.retryCount (min pass.taken pass.started) queue.rows queue.chat
    ⟨sent.1, sent.2⟩

def sendPasses (passes : List Pass) (queue : Queue) : Queue := passes.foldl (sendPass api) queue

end Sending

def queuedRow (entry : Nat × Content) : Row := ⟨entry.1, entry.2, ⟨0, false, none⟩, .pending, none, none⟩

def queued (entries : List (Nat × Content)) : Queue := ⟨entries.map queuedRow, ⟨[], 0⟩⟩

/-- A Telegram that never limits. -/
def Api.unlimited (api : Api) : Api := { api with limits := fun _ => none }

def NonePending (queue : Queue) : Prop := ∀ row ∈ queue.rows, row.status ≠ .pending

/-! ## What a row comes to -/

/-- The row is refused before any call. -/
def Content.isRefused (content : Content) : Bool :=
  content.chatId = "" || if content.documentPath = "" then content.messageText = "" else !content.documentReady

def callsOf (api : Api) (row : Nat) (content : Content) : List Delivery :=
  if content.isRefused then []
  else if content.documentPath = "" then
    partsOf api row content.messageText content.messageType content.replyMessageId content.replyMarkup
  else
    .document row content.documentPath (documentCaption content.messageText).1 content.replyMessageId ::
      if (documentCaption content.messageText).2 = "" then []
      else partsOf api row (documentCaption content.messageText).2 content.messageType none none

/-- How many of the row's calls were made by what is remembered of it. -/
def Resume.made (content : Content) (resume : Resume) : Nat :=
  if content.documentPath = "" then resume.partsDelivered
  else if resume.documentDelivered then resume.partsDelivered + 1
  else 0

/-- The limits leave no trace: the chat has every call of every row once and in order, and every row its status and
its message as when none struck. -/
structure NoTrace (api : Api) (entries : List (Nat × Content)) (passes others : List Pass) : Prop where
  received : (sendPasses api passes (queued entries)).chat.received =
    entries.flatMap fun entry => callsOf api entry.1 entry.2
  status : (sendPasses api passes (queued entries)).rows.map Row.status =
    (sendPasses api.unlimited others (queued entries)).rows.map Row.status
  messageId : (sendPasses api passes (queued entries)).rows.map Row.messageId =
    (sendPasses api.unlimited others (queued entries)).rows.map Row.messageId

/-- No text waits for its remaining parts. -/
def NoneHalfSent (queue : Queue) : Prop :=
  ∀ row ∈ queue.rows, row.status = .pending → row.content.documentPath = "" → row.resume.partsDelivered = 0

/-! ## Sending parts -/

section Parts

variable {api : Api}

/-- A part is delivered, once, or a limit is handed back and nothing is. -/
theorem sendPart_spec (wait : Bool) (delivery : Delivery) (left : Nat) (chat : Chat) :
    (∃ after, sendPart api wait delivery left chat = (.ok (api.messageId chat.received.length), after) ∧
        after.received = chat.received ++ [delivery]) ∨
      ∃ limit after, sendPart api wait delivery left chat = (.error limit, after) ∧
        after.received = chat.received ∧ ∃ n, api.limits n ≠ none := by
  induction left generalizing chat with
  | zero =>
    unfold sendPart callTelegramApi
    cases struck : api.limits chat.attempts with
    | none => exact Or.inl ⟨_, rfl, rfl⟩
    | some limit => exact Or.inr ⟨limit, _, rfl, rfl, chat.attempts, by simp [struck]⟩
  | succ left ih =>
    unfold sendPart callTelegramApi
    cases struck : api.limits chat.attempts with
    | none => exact Or.inl ⟨_, rfl, rfl⟩
    | some limit =>
      dsimp only
      split
      · exact Or.inr ⟨limit, _, rfl, rfl, chat.attempts, by simp [struck]⟩
      · exact ih { chat with attempts := chat.attempts + 1 }

/-- The parts that are left are delivered in order, up to the first limit that is handed back. -/
theorem sendParts_spec (wait : Bool) (startPart index : Nat) (parts : List Delivery) (first : Option Int) (chat : Chat) :
    (∃ after, sendParts api wait startPart index parts first chat =
        (.ok (first.or (if startPart - index < parts.length then some (api.messageId chat.received.length) else none)),
          after) ∧ after.received = chat.received ++ parts.drop (startPart - index)) ∨
      ∃ limit made after, sendParts api wait startPart index parts first chat =
          (.error (.limited limit (index + made)), after) ∧ startPart - index ≤ made ∧ made < parts.length ∧
        after.received = chat.received ++ (parts.take made).drop (startPart - index) ∧ ∃ n, api.limits n ≠ none := by
  induction parts generalizing index first chat with
  | nil => exact Or.inl ⟨chat, by simp [sendParts], by simp⟩
  | cons part parts ih =>
    unfold sendParts
    by_cases skipped : index < startPart
    · rw [if_pos skipped]
      have behind : startPart - index = startPart - (index + 1) + 1 := by omega
      rw [behind]
      rcases ih (index + 1) first chat with ⟨after, run, received⟩ | ⟨limit, made, after, run, skips, short, received, struck⟩
      · refine Or.inl ⟨after, ?_, received⟩
        rw [run]
        simp only [List.length_cons, Nat.add_lt_add_iff_right]
      · refine Or.inr ⟨limit, made + 1, after, ?_, Nat.succ_le_succ skips, Nat.succ_lt_succ short, received, struck⟩
        rw [run]
        congr 3
        omega
    · rw [if_neg skipped]
      have reached : startPart - index = 0 := by omega
      have further : startPart - (index + 1) = 0 := by omega
      rw [reached]
      rcases @sendPart_spec api (wait || decide (startPart < index)) part (rateLimitAttempts - 1) chat with
        ⟨sent, call, delivered⟩ | ⟨limit, later, call, kept, struck⟩
      · rw [call]
        dsimp only
        rcases ih (index + 1) (first.or (some (api.messageId chat.received.length))) sent with
          ⟨after, run, received⟩ | ⟨limit, made, after, run, skips, short, received, struck⟩
        · refine Or.inl ⟨after, ?_, ?_⟩
          · rw [run]
            cases first with
            | none => simp
            | some messageId => simp
          · rw [received, further, delivered]
            simp
        · refine Or.inr ⟨limit, made + 1, after, ?_, Nat.zero_le _, Nat.succ_lt_succ short, ?_, struck⟩
          · rw [run]
            congr 3
            omega
          · rw [received, further, delivered]
            simp
      · rw [call]
        exact Or.inr ⟨limit, 0, later, rfl, le_rfl, Nat.succ_pos _, by simp [kept], struck⟩

/-- A text that is not refused is sent from the part it is at. -/
theorem sendMessage_spec (row : Nat) {content : Content} {text : String} (replyTo : Option Int) (markup : Option String)
    (wait : Bool) {startPart : Nat} (chat : Chat) (addressed : content.chatId ≠ "") (spoken : text ≠ "")
    (started : startPart < (partsOf api row text content.messageType replyTo markup).length) :
    (∃ after, sendMessage api row content text replyTo markup wait startPart chat =
        (.ok (some (api.messageId chat.received.length)), after) ∧
        after.received = chat.received ++ (partsOf api row text content.messageType replyTo markup).drop startPart) ∨
      ∃ limit made after, sendMessage api row content text replyTo markup wait startPart chat =
          (.error (.limited limit made), after) ∧ startPart ≤ made ∧
        made < (partsOf api row text content.messageType replyTo markup).length ∧
        after.received = chat.received ++
          ((partsOf api row text content.messageType replyTo markup).take made).drop startPart ∧
        ∃ n, api.limits n ≠ none := by
  unfold sendMessage
  rw [if_neg addressed, if_neg spoken]
  rcases @sendParts_spec api wait startPart 0 (partsOf api row text content.messageType replyTo markup) none chat
    with ⟨after, run, received⟩ | ⟨limit, made, after, run, skips, short, received, struck⟩
  · refine Or.inl ⟨after, ?_, received⟩
    rw [run, Nat.sub_zero, if_pos started, Option.none_or]
  · rw [Nat.zero_add] at run
    exact Or.inr ⟨limit, made, after, run, skips, short, received, struck⟩

theorem partsOf_ne_nil (row : Nat) (text : String) (messageType : Option String) (replyTo : Option Int)
    (markup : Option String) : partsOf api row text messageType replyTo markup ≠ [] := by
  intro empty
  have none := congrArg List.length empty
  unfold partsOf at none
  rw [List.length_mapIdx, List.length_nil] at none
  exact splitTelegramMessage_ne_nil text (List.eq_nil_of_length_eq_zero none)

end Parts

/-! ## Sending a row -/

section Rows

variable {api : Api}
variable {content : Content} {offset row : Nat} {resume : Resume} {chat : Chat}

theorem not_isRefused_text (accepted : content.isRefused = false) (text : content.documentPath = "") :
    content.chatId ≠ "" ∧ content.messageText ≠ "" := by
  simpa [Content.isRefused, text] using accepted

theorem not_isRefused_document (accepted : content.isRefused = false) (document : content.documentPath ≠ "") :
    content.chatId ≠ "" ∧ content.documentReady = true := by
  simpa [Content.isRefused, document] using accepted

theorem callsOf_text (row : Nat) (accepted : content.isRefused = false) (text : content.documentPath = "") :
    callsOf api row content =
      partsOf api row content.messageText content.messageType content.replyMessageId content.replyMarkup := by
  simp [callsOf, accepted, text]

theorem callsOf_document (row : Nat) (accepted : content.isRefused = false) (document : content.documentPath ≠ "") :
    callsOf api row content =
      .document row content.documentPath (documentCaption content.messageText).1 content.replyMessageId ::
        if (documentCaption content.messageText).2 = "" then []
        else partsOf api row (documentCaption content.messageText).2 content.messageType none none := by
  simp [callsOf, accepted, document]

/-- What is remembered of a row that waits, whose calls begin `offset` messages into the chat. -/
structure Remembered (api : Api) (offset row : Nat) (content : Content) (resume : Resume) : Prop where
  refused : content.isRefused = true → resume = ⟨0, false, none⟩
  short : content.isRefused = false → resume.made content < (callsOf api row content).length
  undelivered : content.documentPath ≠ "" → resume.documentDelivered = false → resume.partsDelivered = 0
  document : content.documentPath ≠ "" → resume.documentDelivered = true →
    resume.documentMessageId = some (api.messageId offset)

theorem remembered_fresh (offset row : Nat) (content : Content) : Remembered api offset row content ⟨0, false, none⟩ where
  refused _ := rfl
  short accepted := by
    by_cases text : content.documentPath = ""
    · rw [callsOf_text row accepted text]
      simp [Resume.made, text, List.length_pos_iff, partsOf_ne_nil]
    · rw [callsOf_document row accepted text]
      simp [Resume.made, text]
  undelivered _ _ := rfl
  document _ delivered := by cases delivered

/-- The id a row gets: of the call its last pass began at, when it is a text. -/
def idOf (api : Api) (offset : Nat) (content : Content) (resume : Resume) : Int :=
  if content.documentPath = "" then api.messageId (offset + resume.partsDelivered) else api.messageId offset

theorem sendFollowUp_spec (wait : Bool) (chat : Chat) (accepted : content.isRefused = false)
    (document : content.documentPath ≠ "") (known : resume.documentMessageId = some (api.messageId offset))
    (started : resume.partsDelivered = 0 ∨ resume.partsDelivered + 1 < (callsOf api row content).length) :
    (∃ after, sendFollowUp api row content wait resume chat = (.ok (some (api.messageId offset)), resume, after) ∧
        after.received = chat.received ++ (callsOf api row content).drop (resume.partsDelivered + 1)) ∨
      ∃ limit made after, sendFollowUp api row content wait resume chat = (.error (.limited limit made), resume, after) ∧
        resume.partsDelivered ≤ made ∧ made + 1 < (callsOf api row content).length ∧
        after.received = chat.received ++ ((callsOf api row content).take (made + 1)).drop (resume.partsDelivered + 1) ∧
        ∃ n, api.limits n ≠ none := by
  rw [callsOf_document row accepted document] at started ⊢
  unfold sendFollowUp
  dsimp only
  by_cases complete : (documentCaption content.messageText).2 = ""
  · rw [if_pos complete] at started
    have none : resume.partsDelivered = 0 := by simpa using started
    refine Or.inl ⟨chat, ?_, ?_⟩
    · rw [if_pos complete, known]
    · simp [complete, none]
  · simp only [if_neg complete] at started ⊢
    have begun : resume.partsDelivered <
        (partsOf api row (documentCaption content.messageText).2 content.messageType none none).length := by
      rcases started with none | further
      · rw [none]
        exact List.length_pos_iff.mpr (partsOf_ne_nil _ _ _ _ _)
      · simpa using further
    rcases sendMessage_spec row none none wait chat (not_isRefused_document accepted document).1 complete begun with
      ⟨after, run, received⟩ | ⟨limit, made, after, run, skips, short, received, struck⟩
    · refine Or.inl ⟨after, ?_, ?_⟩
      · rw [run, known]
      · rw [received, List.drop_succ_cons]
    · refine Or.inr ⟨limit, made, after, ?_, skips, ?_, ?_, struck⟩
      · rw [run]
      · rw [List.length_cons]
        exact Nat.succ_lt_succ short
      · rw [received, List.take_succ_cons, List.drop_succ_cons]

/-- What is remembered once a limit hands the row back. -/
def Resume.handedBack (resume : Resume) (partsDelivered : Nat) : Resume :=
  { resume with partsDelivered := max resume.partsDelivered partsDelivered }

/-- A row handed back after `resume` is at `after`, and its calls in between were made. -/
structure HandedBack (api : Api) (offset row : Nat) (content : Content) (resume after : Resume) (chat later : Chat) :
    Prop where
  remembered : Remembered api offset row content after
  further : resume.made content ≤ after.made content
  parts : resume.partsDelivered ≤ after.partsDelivered
  received : later.received =
    chat.received ++ ((callsOf api row content).take (after.made content)).drop (resume.made content)
  struck : ∃ n, api.limits n ≠ none

/-- An attempt sends a row, with its calls made, or hands it back where a limit struck. -/
def AttemptEnds (api : Api) (offset row : Nat) (content : Content) (resume : Resume) (chat : Chat)
    (answer : Except Stop (Option Int) × Resume × Chat) : Prop :=
  (∃ after later, answer = (.ok (some (idOf api offset content resume)), after, later) ∧
      later.received = chat.received ++ (callsOf api row content).drop (resume.made content)) ∨
    ∃ limit delivered after later, answer = (.error (.limited limit delivered), after, later) ∧
      HandedBack api offset row content resume (after.handedBack delivered) chat later

theorem attempt_text (wait : Bool) (accepted : content.isRefused = false) (text : content.documentPath = "")
    (remembered : Remembered api offset row content resume)
    (arrived : chat.received.length = offset + resume.made content) :
    AttemptEnds api offset row content resume chat (attempt api row content wait resume chat) := by
  have begun := remembered.short accepted
  have count : resume.made content = resume.partsDelivered := if_pos text
  unfold AttemptEnds attempt idOf
  rw [if_pos text, if_pos text]
  rw [callsOf_text row accepted text, count] at begun
  rcases sendMessage_spec row content.replyMessageId content.replyMarkup wait chat
    (not_isRefused_text accepted text).1 (not_isRefused_text accepted text).2 begun with
    ⟨after, run, received⟩ | ⟨limit, made, after, run, skips, short, received, struck⟩
  · refine Or.inl ⟨resume, after, ?_, ?_⟩
    · rw [run, arrived, count]
    · rw [received, callsOf_text row accepted text, count]
  · refine Or.inr ⟨limit, made, resume, after, ?_, ?_⟩
    · rw [run]
    · have kept : (resume.handedBack made).made content = made := by
        simp [Resume.made, Resume.handedBack, text, skips]
      refine ⟨⟨?_, ?_, ?_, ?_⟩, ?_, ?_, ?_, struck⟩
      · intro refused
        rw [accepted] at refused
        cases refused
      · intro _
        rw [kept, callsOf_text row accepted text]
        exact short
      · exact fun document => absurd text document
      · exact fun document => absurd text document
      · rw [kept, count]
        exact skips
      · exact le_max_left _ _
      · rw [kept, count, callsOf_text row accepted text]
        exact received

/-- What is left of a document's row once the document is delivered, by then or in this attempt. -/
theorem attempt_delivered (wait : Bool) (accepted : content.isRefused = false) (document : content.documentPath ≠ "")
    (delivered : resume.documentDelivered = true) (known : resume.documentMessageId = some (api.messageId offset))
    (started : resume.partsDelivered = 0 ∨ resume.partsDelivered + 1 < (callsOf api row content).length) :
    AttemptEnds api offset row content resume chat (sendFollowUp api row content wait resume chat) := by
  have count : resume.made content = resume.partsDelivered + 1 := by simp [Resume.made, document, delivered]
  rcases sendFollowUp_spec wait chat accepted document known started with
    ⟨later, run, received⟩ | ⟨limit, made, later, run, skips, short, received, struck⟩
  · refine Or.inl ⟨resume, later, ?_, ?_⟩
    · rw [run, idOf, if_neg document]
    · rw [received, count]
  · have kept : (resume.handedBack made).made content = made + 1 := by
      simp [Resume.made, Resume.handedBack, document, delivered, skips]
    refine Or.inr ⟨limit, made, resume, later, run, ⟨?_, ?_, ?_, ?_⟩, ?_, le_max_left _ _, ?_, struck⟩
    · intro refused
      rw [accepted] at refused
      cases refused
    · intro _
      rw [kept]
      exact short
    · intro _ undelivered
      cases delivered.symm.trans undelivered
    · exact fun _ _ => known
    · rw [kept, count]
      exact Nat.succ_le_succ skips
    · rw [kept, count]
      exact received

theorem attempt_document (wait : Bool) (accepted : content.isRefused = false) (document : content.documentPath ≠ "")
    (remembered : Remembered api offset row content resume)
    (arrived : chat.received.length = offset + resume.made content) :
    AttemptEnds api offset row content resume chat (attempt api row content wait resume chat) := by
  have begun := remembered.short accepted
  unfold attempt
  rw [if_neg document]
  cases delivered : resume.documentDelivered with
  | true =>
    have started : resume.partsDelivered + 1 < (callsOf api row content).length := by
      simpa [Resume.made, document, delivered] using begun
    rw [if_pos rfl]
    exact attempt_delivered wait accepted document delivered (remembered.document document delivered) (Or.inr started)
  | false =>
    have untouched : resume.partsDelivered = 0 := remembered.undelivered document delivered
    have count : resume.made content = 0 := by simp [Resume.made, document, delivered]
    have ready := not_isRefused_document accepted document
    rw [if_neg Bool.false_ne_true]
    unfold sendDocument callTelegramApi
    rw [if_neg ready.1, if_neg (by rw [ready.2]; exact Bool.noConfusion)]
    cases struck : api.limits chat.attempts with
    | some limit =>
      refine Or.inr ⟨limit, 0, resume, _, rfl, ?_⟩
      have same : resume.handedBack 0 = resume := by simp [Resume.handedBack]
      rw [same]
      exact ⟨remembered, le_rfl, le_rfl, by simp [count], chat.attempts, by simp [struck]⟩
    | none =>
      rw [arrived, count, Nat.add_zero]
      have reached : (Resume.mk resume.partsDelivered true (some (api.messageId offset))).made content = 1 := by
        simp [Resume.made, document, untouched]
      obtain ⟨rest, calls⟩ : ∃ rest, callsOf api row content = .document row content.documentPath
          (documentCaption content.messageText).1 content.replyMessageId :: rest :=
        ⟨_, callsOf_document row accepted document⟩
      have ends : AttemptEnds api offset row content ⟨resume.partsDelivered, true, some (api.messageId offset)⟩
          ⟨chat.received ++ [.document row content.documentPath (documentCaption content.messageText).1
            content.replyMessageId], chat.attempts + 1⟩ _ :=
        attempt_delivered wait accepted document rfl rfl (Or.inl untouched)
      rcases ends with ⟨after, later, run, received⟩ | ⟨limit, made, after, later, run, handed⟩
      · refine Or.inl ⟨after, later, ?_, ?_⟩
        · unfold idOf at run ⊢
          rw [if_neg document] at run ⊢
          exact run
        · rw [received, reached, calls, count]
          simp
      · refine Or.inr ⟨limit, made, after, later, run, handed.remembered, ?_, handed.parts, ?_, handed.struck⟩
        · rw [count]
          exact Nat.zero_le _
        · have further := handed.further
          rw [reached] at further
          obtain ⟨more, total⟩ := Nat.exists_eq_add_of_le' further
          rw [handed.received, reached, calls, count, total]
          simp

theorem attempt_spec (wait : Bool) (accepted : content.isRefused = false)
    (remembered : Remembered api offset row content resume)
    (arrived : chat.received.length = offset + resume.made content) :
    AttemptEnds api offset row content resume chat (attempt api row content wait resume chat) := by
  by_cases text : content.documentPath = ""
  · exact attempt_text wait accepted text remembered arrived
  · exact attempt_document wait accepted text remembered arrived

theorem attempt_refused (row : Nat) (wait : Bool) (chat : Chat) (refused : content.isRefused = true) :
    ∃ text, attempt api row content wait ⟨0, false, none⟩ chat = (.error (.refused text), ⟨0, false, none⟩, chat) := by
  unfold attempt
  by_cases unaddressed : content.chatId = ""
  · exact ⟨"Telegram chat id is empty.", by simp [sendMessage, sendDocument, unaddressed]⟩
  by_cases text : content.documentPath = ""
  · have silent : content.messageText = "" := by simpa [Content.isRefused, unaddressed, text] using refused
    exact ⟨"Telegram message text is empty.", by simp [sendMessage, unaddressed, text, silent]⟩
  · have missing : content.documentReady = false := by simpa [Content.isRefused, unaddressed, text] using refused
    exact ⟨"Telegram document not found: " ++ content.documentPath, by simp [sendDocument, unaddressed, text, missing]⟩

theorem sendAttempts_refused (row : Nat) (wait : Bool) (left : Nat) (last : String) (chat : Chat)
    (refused : content.isRefused = true) :
    ∃ text, sendAttempts api row content wait left (.failed last) ⟨0, false, none⟩ chat =
      (.failed text, ⟨0, false, none⟩, chat) := by
  induction left generalizing last with
  | zero => exact ⟨last, rfl⟩
  | succ left ih =>
    obtain ⟨text, stopped⟩ := attempt_refused row wait chat refused
    unfold sendAttempts
    rw [stopped]
    exact ih text

/-- A row that waits to be sent, whose calls begin `offset` messages into the chat. -/
structure Waiting (api : Api) (offset : Nat) (row : Row) : Prop where
  pending : row.status = .pending
  unsent : row.messageId = none
  remembered : Remembered api offset row.id row.content row.resume

/-- A row that is done. -/
structure Settled (api : Api) (offset : Nat) (row : Row) : Prop where
  refused : row.content.isRefused = true → row.status = .failed ∧ row.messageId = none ∧ row.resume.partsDelivered = 0
  accepted : row.content.isRefused = false →
    row.status = .sent ∧ row.messageId = some (idOf api offset row.content row.resume)

/-- What a pass may do to a row: only a limit has it remember more, and then the row waits. -/
structure Follows (api : Api) (before after : Row) : Prop where
  id : after.id = before.id
  content : after.content = before.content
  parts : before.resume.partsDelivered ≤ after.resume.partsDelivered
  resume : after.resume = before.resume ∨ after.status = .pending ∧ ∃ n, api.limits n ≠ none

/-- A row that waits is done with all its calls made, or handed back and waits where it is. -/
theorem sendOneMessage_spec (retryCount : Nat) {row : Row} (waiting : Waiting api offset row)
    (arrived : chat.received.length = offset + row.resume.made row.content) :
    ∃ outcome after later, sendOneMessage api false retryCount row chat = (outcome, after, later) ∧
      Follows api row after ∧
      ((∀ limit, outcome ≠ .rateLimited limit) ∧ Settled api offset after ∧
          later.received = chat.received ++ (callsOf api row.id row.content).drop (row.resume.made row.content) ∨
        (∃ limit, outcome = .rateLimited limit) ∧ Waiting api offset after ∧
          row.resume.made row.content ≤ after.resume.made row.content ∧
          later.received = chat.received ++
            ((callsOf api row.id row.content).take (after.resume.made row.content)).drop (row.resume.made row.content)) := by
  unfold sendOneMessage
  cases refused : row.content.isRefused with
  | true =>
    have fresh := waiting.remembered.refused refused
    obtain ⟨text, failed⟩ := sendAttempts_refused row.id false (max 1 retryCount) "" chat refused
    rw [fresh, failed]
    refine ⟨_, _, _, rfl, ⟨rfl, rfl, le_rfl, Or.inl rfl⟩, Or.inl ⟨fun _ limited => (by cases limited), ⟨?_, ?_⟩, ?_⟩⟩
    · exact fun _ => ⟨rfl, waiting.unsent, by simp [Row.settle, fresh]⟩
    · intro accepted
      cases refused.symm.trans accepted
    · simp [callsOf, refused]
  | false =>
    obtain ⟨left, count⟩ : ∃ left, max 1 retryCount = left + 1 := Nat.exists_eq_add_of_le' (le_max_left _ _)
    rw [count]
    unfold sendAttempts
    rcases attempt_spec false refused waiting.remembered arrived with
      ⟨after, later, run, received⟩ | ⟨limit, delivered, after, later, run, handed⟩
    · rw [run]
      refine ⟨_, _, _, rfl, ⟨rfl, rfl, le_rfl, Or.inl rfl⟩, Or.inl ⟨fun _ limited => (by cases limited), ⟨?_, ?_⟩, received⟩⟩
      · intro stopped
        cases refused.symm.trans stopped
      · exact fun _ => ⟨rfl, rfl⟩
    · rw [run]
      refine ⟨_, _, _, rfl, ⟨rfl, rfl, handed.parts, Or.inr ⟨waiting.pending, handed.struck⟩⟩, Or.inr ⟨⟨limit, rfl⟩, ⟨?_, ?_, ?_⟩,
        handed.further, handed.received⟩⟩
      · exact waiting.pending
      · exact waiting.unsent
      · exact handed.remembered

theorem Follows.refl (row : Row) : Follows api row row := ⟨rfl, rfl, le_rfl, Or.inl rfl⟩

end Rows

/-! ## Runs of passes -/

/-- How far a chat has come: rows that are done, then one that may be under way, then rows as they were queued; with what
the chat received of them. -/
inductive Progress (api : Api) : Nat → List (Nat × Content) → List Row → List Delivery → Prop
  | nil (offset : Nat) : Progress api offset [] [] []
  | head {offset : Nat} {entry : Nat × Content} {entries : List (Nat × Content)} {row : Row} (same : row.id = entry.1)
      (content : row.content = entry.2) (waiting : Waiting api offset row) :
      Progress api offset (entry :: entries) (row :: entries.map queuedRow)
        ((callsOf api entry.1 entry.2).take (row.resume.made entry.2))
  | settled {offset : Nat} {entry : Nat × Content} {entries : List (Nat × Content)} {row : Row} {rows : List Row}
      {received : List Delivery} (same : row.id = entry.1) (content : row.content = entry.2) (done : Settled api offset row)
      (others : Progress api (offset + (callsOf api entry.1 entry.2).length) entries rows received) :
      Progress api offset (entry :: entries) (row :: rows) (callsOf api entry.1 entry.2 ++ received)

section Runs

variable {api : Api}

theorem made_fresh (content : Content) : Resume.made content ⟨0, false, none⟩ = 0 := by
  simp [Resume.made]

theorem progress_queued (offset : Nat) (entries : List (Nat × Content)) :
    Progress api offset entries (entries.map queuedRow) [] := by
  cases entries with
  | nil => exact .nil offset
  | cons entry entries =>
    have started := @Progress.head api offset entry entries (queuedRow entry) rfl rfl ⟨rfl, rfl, remembered_fresh offset entry.1 entry.2⟩
    unfold queuedRow at started
    rwa [made_fresh, List.take_zero] at started

variable {offset : Nat} {entries : List (Nat × Content)} {rows : List Row}
variable {row : Row} {later : List Row} {passes : List Pass}

theorem Settled.not_pending (done : Settled api offset row) : row.status ≠ .pending := by
  cases refused : row.content.isRefused with
  | true => simp [(done.refused refused).1]
  | false => simp [(done.accepted refused).1]

theorem made_le (waiting : Waiting api offset row) :
    row.resume.made row.content ≤ (callsOf api row.id row.content).length := by
  cases refused : row.content.isRefused with
  | true =>
    rw [waiting.remembered.refused refused, made_fresh]
    exact Nat.zero_le _
  | false => exact Nat.le_of_lt (waiting.remembered.short refused)

theorem sendChat_spec (retryCount : Nat) (count : Nat) {received front : List Delivery} {chat : Chat}
    (progress : Progress api offset entries rows received) (arrived : chat.received = front ++ received)
    (before : front.length = offset) :
    ∃ made, (sendChat api retryCount count rows chat).2.received = front ++ made ∧
      Progress api offset entries (sendChat api retryCount count rows chat).1 made ∧
      List.Forall₂ (Follows api) rows (sendChat api retryCount count rows chat).1 := by
  induction entries generalizing offset count rows received front chat with
  | nil =>
    cases progress
    unfold sendChat
    exact ⟨[], arrived, .nil offset, .nil⟩
  | cons entry entries ih =>
    cases progress with
    | settled same content done others =>
      rename_i row rows received
      unfold sendChat
      rw [if_pos done.not_pending]
      obtain ⟨made, delivered, further, follow⟩ := ih count others
        (show chat.received = (front ++ callsOf api entry.1 entry.2) ++ received by rw [arrived, List.append_assoc])
        (by rw [List.length_append, before])
      exact ⟨callsOf api entry.1 entry.2 ++ made, by rw [delivered, List.append_assoc],
        .settled same content done further, .cons (Follows.refl row) follow⟩
    | head same content waiting =>
      rename_i row
      unfold sendChat
      rw [if_neg (not_not.mpr waiting.pending)]
      have unmoved : List.Forall₂ (Follows api) (entries.map queuedRow) (entries.map queuedRow) :=
        List.forall₂_same.mpr fun row _ => Follows.refl row
      cases count with
      | zero => exact ⟨_, arrived, .head same content waiting, .cons (Follows.refl row) unmoved⟩
      | succ left =>
        have full := made_le waiting
        rw [same, content] at full
        obtain ⟨outcome, after, later, sent, follows, ending⟩ := sendOneMessage_spec retryCount
          waiting (by rw [arrived, List.length_append, before, List.length_take, content, min_eq_left full])
        dsimp only
        rw [sent]
        rw [same, content] at ending
        rcases ending with ⟨unlimited, done, delivered⟩ | ⟨⟨limit, rfl⟩, waits, further, delivered⟩
        · have whole : later.received = (front ++ callsOf api entry.1 entry.2) ++ [] := by
            rw [delivered, arrived, List.append_assoc, List.append_assoc, List.append_nil]
            rw [List.take_append_drop]
          obtain ⟨made, handed, progress, follow⟩ := ih left
            (@progress_queued api (offset + (callsOf api entry.1 entry.2).length) entries) whole
            (by rw [List.length_append, before])
          cases outcome with
          | rateLimited limit => exact absurd rfl (unlimited limit)
          | sent messageId | failed text =>
            exact ⟨callsOf api entry.1 entry.2 ++ made, by rw [handed, List.append_assoc],
              .settled (follows.id.trans same) (follows.content.trans content) done progress, .cons follows follow⟩
        · refine ⟨_, ?_, .head (follows.id.trans same) (follows.content.trans content) waits, .cons follows unmoved⟩
          have resumed : (callsOf api entry.1 entry.2).take (row.resume.made entry.2) =
              ((callsOf api entry.1 entry.2).take (after.resume.made entry.2)).take (row.resume.made entry.2) := by
            rw [List.take_take, min_eq_left further]
          rw [delivered, arrived, resumed, List.append_assoc, List.take_append_drop]

theorem sendPass_spec {queue : Queue} (pass : Pass) (progress : Progress api 0 entries queue.rows queue.chat.received) :
    Progress api 0 entries (sendPass api queue pass).rows (sendPass api queue pass).chat.received ∧
      List.Forall₂ (Follows api) queue.rows (sendPass api queue pass).rows := by
  unfold sendPass
  cases pass.paused with
  | true => exact ⟨progress, List.forall₂_same.mpr fun row _ => Follows.refl row⟩
  | false =>
    obtain ⟨made, delivered, further, follow⟩ :=
      sendChat_spec pass.retryCount (min pass.taken pass.started) progress (List.nil_append _).symm rfl
    rw [List.nil_append] at delivered
    refine ⟨?_, follow⟩
    rw [if_neg Bool.false_ne_true]
    dsimp only
    rw [delivered]
    exact further

theorem sendPasses_append (front : List Pass) (pass : Pass) (queue : Queue) :
    sendPasses api (front ++ [pass]) queue = sendPass api (sendPasses api front queue) pass := by
  unfold sendPasses
  rw [List.foldl_append]
  rfl

/-- Whatever the limits, a run of passes makes each row's calls in order and none of them twice. -/
theorem progress_sendPasses (passes : List Pass) (entries : List (Nat × Content)) :
    Progress api 0 entries (sendPasses api passes (queued entries)).rows
      (sendPasses api passes (queued entries)).chat.received := by
  induction passes using List.reverseRecOn with
  | nil => exact progress_queued 0 entries
  | append_singleton front pass ih =>
    rw [sendPasses_append]
    exact (sendPass_spec pass ih).1

/-! ## Texts that were never half sent -/

/-- No text remembers parts of it, waiting or not. -/
def Whole (rows : List Row) : Prop := ∀ row ∈ rows, row.content.documentPath = "" → row.resume.partsDelivered = 0

theorem whole_of_follows (follow : List.Forall₂ (Follows api) rows later) (whole : Whole later) : Whole rows := by
  induction follow with
  | nil => exact whole
  | @cons before after rows later follows _ ih =>
    obtain ⟨head, tail⟩ := List.forall_mem_cons.mp whole
    refine List.forall_mem_cons.mpr ⟨?_, ih tail⟩
    intro text
    have none := head (by rw [follows.content, text])
    have parts := follows.parts
    omega

/-- A row that no longer waits remembers what it did before. -/
theorem whole_follows (follow : List.Forall₂ (Follows api) rows later) (whole : Whole rows)
    (halves : ∀ row ∈ later, row.status = .pending → (∃ n, api.limits n ≠ none) → row.content.documentPath = "" →
      row.resume.partsDelivered = 0) : Whole later := by
  induction follow with
  | nil => exact whole
  | @cons before after rows later follows _ ih =>
    obtain ⟨head, tail⟩ := List.forall_mem_cons.mp whole
    obtain ⟨half, others⟩ := List.forall_mem_cons.mp halves
    refine List.forall_mem_cons.mpr ⟨?_, ih tail others⟩
    intro text
    rcases follows.resume with kept | ⟨pending, struck⟩
    · rw [kept]
      exact head (by rw [← follows.content, text])
    · exact half pending struck text

theorem whole_queued (entries : List (Nat × Content)) : Whole (queued entries).rows := by
  intro row member
  obtain ⟨entry, _, rfl⟩ := List.mem_map.mp member
  exact fun _ => rfl

theorem whole_before (whole : Whole (sendPasses api passes (queued entries)).rows) {front : List Pass}
    (earlier : front <+: passes) : Whole (sendPasses api front (queued entries)).rows := by
  induction passes using List.reverseRecOn with
  | nil =>
    rw [List.prefix_nil.mp earlier]
    exact whole
  | append_singleton passes pass ih =>
    rcases List.prefix_concat_iff.mp earlier with rfl | shorter
    · exact whole
    · rw [sendPasses_append] at whole
      exact ih (whole_of_follows (sendPass_spec pass (progress_sendPasses passes entries)).2 whole) shorter

/-- Texts that wait with none of their parts sent whenever a pass begins are whole once nothing waits. -/
theorem whole_after
    (halves : ∀ front pass rest, passes = front ++ pass :: rest → NoneHalfSent (sendPasses api front (queued entries)))
    (done : NonePending (sendPasses api passes (queued entries))) :
    Whole (sendPasses api passes (queued entries)).rows := by
  have whole : ∀ front, front <+: passes → Whole (sendPasses api front (queued entries)).rows := by
    intro front earlier
    induction front using List.reverseRecOn with
    | nil => exact whole_queued entries
    | append_singleton front pass ih =>
      have before := ih ((List.prefix_append front [pass]).trans earlier)
      rw [sendPasses_append]
      apply whole_follows (sendPass_spec pass (progress_sendPasses front entries)).2 before
      intro row member pending _ text
      rw [← sendPasses_append] at member
      obtain ⟨rest, split⟩ := earlier
      cases rest with
      | nil =>
        rw [List.append_nil] at split
        rw [split] at member
        exact absurd pending (done row member)
      | cons next rest => exact halves (front ++ [pass]) next rest split.symm row member pending text
  exact whole passes (List.prefix_refl passes)

theorem whole_unlimited (passes : List Pass) (entries : List (Nat × Content)) :
    Whole (sendPasses api.unlimited passes (queued entries)).rows := by
  induction passes using List.reverseRecOn with
  | nil => exact whole_queued entries
  | append_singleton front pass ih =>
    rw [sendPasses_append]
    apply whole_follows (sendPass_spec pass (progress_sendPasses front entries)).2 ih
    rintro row _ _ ⟨n, struck⟩ _
    exact absurd rfl struck

end Runs

/-! ## A report in two parts -/

/-- A text of one line. -/
def line (length : Nat) : String := String.ofList (List.replicate length 'a')

def report (length : Nat) : Content := ⟨"7", line length, "", false, none, none, none⟩

/-- Telegram asks for a minute and a half at one call. -/
def limitedAt (call : Nat) : Api where
  decorate part _ := part
  messageId count := count + 1
  messageId_injective count other same := by simpa using same
  limits attempts := if attempts = call then some ⟨90, "Telegram HTTP 429"⟩ else none

def pass : Pass := ⟨false, 8, 8, 3⟩

variable {length : Nat}

theorem length_split_line (long : 3900 < length) :
    (splitTelegramMessage (line length)).length = (length + 3819) / 3820 := by
  have letters : ∀ c ∈ (line length).toList, c = 'a' := by
    intro c member
    rw [line, String.toList_ofList] at member
    exact List.eq_of_mem_replicate member
  have whole : (line length).length = length := by
    rw [line, String.length_ofList, List.length_replicate]
  rw [length_splitTelegramMessage, whole]
  · rfl
  · intro c member
    rw [letters c member]
    rfl
  · apply Foundation.Text.strip_eq_self
    · intro c first
      rw [letters c (List.mem_of_head? first)]
      rfl
    · intro c last
      rw [letters c (List.mem_of_getLast? last)]
      rfl
  · rw [whole]
    exact long

theorem parts_report (api : Api) (long : 3900 < length) (short : length ≤ 7640) :
    ∃ first second, partsOf api 1 (line length) none none none = [first, second] := by
  have count : (partsOf api 1 (line length) none none none).length = 2 := by
    unfold partsOf
    rw [List.length_mapIdx, length_split_line long]
    omega
  exact List.length_eq_two.mp count

theorem attempt_report (api : Api) {parts : List Delivery} (long : 3900 < length)
    (split : partsOf api 1 (line length) none none none = parts) (resume : Resume) (chat : Chat) :
    attempt api 1 (report length) false resume chat =
      match sendParts api false resume.partsDelivered 0 parts none chat with
      | (.ok messageId, after) => (.ok messageId, resume, after)
      | (.error stop, after) => (.error stop, resume, after) := by
  have spoken : line length ≠ "" := by
    intro empty
    have count := congrArg String.length empty
    rw [line, String.length_ofList, List.length_replicate, String.length_empty] at count
    omega
  rw [← split]
  unfold attempt sendMessage report
  rw [if_pos rfl, if_neg (show ("7" : String) ≠ "" by decide), if_neg spoken]

theorem callTelegramApi_limitedAt (call : Nat) (delivery : Delivery) (received : List Delivery) (attempts : Nat) :
    callTelegramApi (limitedAt call) delivery ⟨received, attempts⟩ =
      if attempts = call then (.error ⟨90, "Telegram HTTP 429"⟩, ⟨received, attempts + 1⟩)
      else (.ok (received.length + 1), ⟨received ++ [delivery], attempts + 1⟩) := by
  unfold callTelegramApi limitedAt
  by_cases struck : attempts = call
  · simp [struck]
  · simp [struck]

theorem callTelegramApi_unlimited (call : Nat) (delivery : Delivery) (received : List Delivery) (attempts : Nat) :
    callTelegramApi (limitedAt call).unlimited delivery ⟨received, attempts⟩ =
      (.ok (received.length + 1), ⟨received ++ [delivery], attempts + 1⟩) := rfl

theorem quiet_report (call : Nat) (long : 3900 < length) (short : length ≤ 7640) :
    (sendPasses (limitedAt call).unlimited [pass] (queued [(1, report length)])).rows =
      [⟨1, report length, ⟨0, false, none⟩, .sent, some 1, none⟩] := by
  obtain ⟨first, second, parts⟩ := parts_report (limitedAt call).unlimited long short
  simp [sendPasses, sendPass, pass, queued, queuedRow, sendChat, sendOneMessage, sendAttempts, attempt_report _ long parts,
    sendParts, sendPart, callTelegramApi_unlimited, rateLimitAttempts, Row.settle]

/-! ## What is left of the limits -/

section Traces

variable {api : Api}
variable {offset : Nat}
variable {entries : List (Nat × Content)} {rows : List Row} {received : List Delivery}

theorem Progress.received_of_done (progress : Progress api offset entries rows received)
    (done : ∀ row ∈ rows, row.status ≠ .pending) :
    received = entries.flatMap fun entry => callsOf api entry.1 entry.2 := by
  induction progress with
  | nil offset => rfl
  | head same content waiting => exact absurd waiting.pending (done _ List.mem_cons_self)
  | settled same content settled others ih =>
    rw [ih fun row member => done row (List.mem_cons_of_mem _ member), List.flatMap_cons]

/-- A row that is done has the status it has without limits, and its message if it was sent whole. -/
theorem Settled.agree {row quiet : Row} (settled : Settled api offset row) (other : Settled api.unlimited offset quiet)
    (content : row.content = quiet.content) (whole : quiet.content.documentPath = "" → quiet.resume.partsDelivered = 0) :
    row.status = quiet.status ∧
      (row.messageId = quiet.messageId ↔ (row.content.documentPath = "" → row.resume.partsDelivered = 0)) := by
  cases refused : row.content.isRefused with
  | true =>
    have failed := settled.refused refused
    have same := other.refused (by rw [← content, refused])
    rw [failed.1, failed.2.1, failed.2.2, same.1, same.2.1]
    exact ⟨rfl, iff_of_true rfl fun _ => rfl⟩
  | false =>
    have sent := settled.accepted refused
    have same := other.accepted (by rw [← content, refused])
    rw [sent.1, sent.2, same.1, same.2]
    refine ⟨rfl, ?_⟩
    rw [← content] at whole ⊢
    unfold idOf
    by_cases text : row.content.documentPath = ""
    · rw [if_pos text, if_pos text, whole text, Nat.add_zero, Option.some.injEq]
      constructor
      · intro equal _
        have counts := api.messageId_injective equal
        omega
      · intro none
        rw [none text]
        rfl
    · rw [if_neg text, if_neg text]
      exact iff_of_true rfl fun text' => absurd text' text

theorem Progress.agree {quiet : List Row} {others : List Delivery}
    (progress : Progress api offset entries rows received) (other : Progress api.unlimited offset entries quiet others)
    (done : ∀ row ∈ rows, row.status ≠ .pending) (quietDone : ∀ row ∈ quiet, row.status ≠ .pending)
    (whole : Whole quiet) :
    rows.map Row.status = quiet.map Row.status ∧ (rows.map Row.messageId = quiet.map Row.messageId ↔ Whole rows) := by
  induction progress generalizing quiet others with
  | nil offset =>
    cases other
    exact ⟨rfl, iff_of_true rfl whole⟩
  | head same content waiting => exact absurd waiting.pending (done _ List.mem_cons_self)
  | settled same content settled _ ih =>
    cases other with
    | head same' content' waiting' => exact absurd waiting'.pending (quietDone _ List.mem_cons_self)
    | settled same' content' settled' others' =>
      obtain ⟨head, tail⟩ := List.forall_mem_cons.mp whole
      obtain ⟨status, messageId⟩ := settled.agree settled' (content.trans content'.symm) head
      obtain ⟨statuses, messageIds⟩ := ih others' (List.forall_mem_cons.mp done).2 (List.forall_mem_cons.mp quietDone).2 tail
      simp only [List.map_cons, List.cons.injEq, status, statuses, messageId, messageIds, true_and]
      unfold Whole
      rw [List.forall_mem_cons]

end Traces

/-- The limits leave no trace of themselves just when no pass begins with a text half sent. -/
theorem no_trace_iff (api : Api) (entries : List (Nat × Content)) (passes others : List Pass)
    (done : NonePending (sendPasses api passes (queued entries)))
    (quietDone : NonePending (sendPasses api.unlimited others (queued entries))) :
    NoTrace api entries passes others ↔
      ∀ front pass rest, passes = front ++ pass :: rest → NoneHalfSent (sendPasses api front (queued entries)) := by
  have progress := @progress_sendPasses api passes entries
  obtain ⟨statuses, messageIds⟩ := progress.agree (@progress_sendPasses api.unlimited others entries) done quietDone
    (whole_unlimited others entries)
  constructor
  · rintro ⟨_, _, same⟩ front pass rest split row member _ text
    exact whole_before (messageIds.mp same) ⟨pass :: rest, split.symm⟩ row member text
  · intro halves
    exact ⟨progress.received_of_done done, statuses, messageIds.mpr (whole_after halves done)⟩

/-- A limit at the first part leaves nothing behind. -/
theorem repeated_report (long : 3900 < length) (short : length ≤ 7640) :
    (sendPasses (limitedAt 0) [pass, pass] (queued [(1, report length)])).rows =
      [⟨1, report length, ⟨0, false, none⟩, .sent, some 1, some "Telegram HTTP 429"⟩] := by
  obtain ⟨first, second, parts⟩ := parts_report (limitedAt 0) long short
  simp [sendPasses, sendPass, pass, queued, queuedRow, sendChat, sendOneMessage, sendAttempts, attempt_report _ long parts,
    sendParts, sendPart, callTelegramApi_limitedAt, rateLimitAttempts, Row.settle]

theorem no_trace_iff_first_part :
    NoTrace (limitedAt 0) [(1, report 3901)] [pass, pass] [pass] ↔
      ∀ front pass' rest, [pass, pass] = front ++ pass' :: rest →
        NoneHalfSent (sendPasses (limitedAt 0) front (queued [(1, report 3901)])) := by
  apply no_trace_iff
  · unfold NonePending
    rw [repeated_report (by decide) (by decide)]
    simp
  · unfold NonePending
    rw [quiet_report 0 (by decide) (by decide)]
    simp

/-- The second part meets the limit, and the next pass begins at it. -/
theorem resumed_report (long : 3900 < length) (short : length ≤ 7640) :
    (sendPasses (limitedAt 1) [pass, pass] (queued [(1, report length)])).rows =
      [⟨1, report length, ⟨1, false, none⟩, .sent, some 2, some "Telegram HTTP 429"⟩] := by
  obtain ⟨first, second, parts⟩ := parts_report (limitedAt 1) long short
  have handedBack : sendPass (limitedAt 1) (queued [(1, report length)]) pass =
      ⟨[⟨1, report length, ⟨1, false, none⟩, .pending, none, some "Telegram HTTP 429"⟩], ⟨[first], 2⟩⟩ := by
    simp [sendPass, pass, queued, queuedRow, sendChat, sendOneMessage, sendAttempts, attempt_report _ long parts, sendParts,
      sendPart, callTelegramApi_limitedAt, rateLimitAttempts, maxRateLimitWaitSeconds, Row.settle]
    norm_num
  rw [sendPasses, List.foldl_cons, List.foldl_cons, List.foldl_nil, handedBack]
  simp [sendPass, pass, sendChat, sendOneMessage, sendAttempts, attempt_report _ long parts, sendParts, sendPart,
    callTelegramApi_limitedAt, rateLimitAttempts, Row.settle]

/-- The row is recorded with the second part's id, not the first one's. -/
theorem second_part_is_recorded :
    NonePending (sendPasses (limitedAt 1) [pass, pass] (queued [(1, report 3901)])) ∧
      NonePending (sendPasses (limitedAt 1).unlimited [pass] (queued [(1, report 3901)])) ∧
      ¬ NoTrace (limitedAt 1) [(1, report 3901)] [pass, pass] [pass] := by
  have run := @resumed_report 3901 (by decide) (by decide)
  have other := @quiet_report 3901 1 (by decide) (by decide)
  refine ⟨?_, ?_, ?_⟩
  · unfold NonePending
    rw [run]
    simp
  · unfold NonePending
    rw [other]
    simp
  · rintro ⟨_, _, same⟩
    rw [run, other] at same
    simp at same

end DbaBrain.Telegram.RateLimits
