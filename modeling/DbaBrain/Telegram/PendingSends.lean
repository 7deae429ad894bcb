import DbaBrain.Foundation.Ranking
import DbaBrain.Telegram.SendQueue

/-!
# The rows one send pass takes

`fetch_pending_telegram_send_messages` numbers each chat's pending rows by
their age and takes the lowest numbers first, so every chat has its first row
taken before any chat's second.
-/

namespace DbaBrain.Telegram.PendingSends

open DbaBrain.Foundation DbaBrain.Foundation.Ranking DbaBrain.Telegram.SendQueue

/-- What the statement picks and orders rows by; the other columns it hands on. -/
structure QueuedRow where
  sendTlgmsgId : Nat
  rowInsDate : Int
  tlgchatId : Option String
  sendStatus : SendStatus

/-- `telegram_send_messages`. -/
structure SendMessages where
  rows : List QueuedRow
  keys_nodup : (rows.map QueuedRow.sendTlgmsgId).Nodup

def SendMessages.pending (messages : SendMessages) : List QueuedRow :=
  messages.rows.filter fun row => row.sendStatus = .pending

/-- `ORDER BY row_ins_date ASC, send_tlgmsg_id ASC`. -/
def age (row : QueuedRow) : Int ×ₗ Nat := toLex (row.rowInsDate, row.sendTlgmsgId)

/-- `LIMIT`; a negative one is none. -/
def limited (limit : Int) (rows : List QueuedRow) : List QueuedRow :=
  if limit < 0 then rows else rows.take limit.toNat

/-- `fetch_pending_telegram_send_messages`. -/
def fetchPending (limit : Int) (perChat : Option Int) (messages : SendMessages) : List QueuedRow :=
  match perChat with
  | some share => limited limit (turns QueuedRow.tlgchatId age (max 1 share).toNat messages.pending)
  | none => limited limit (Selection.sortedBy age messages.pending)

def oldest (messages : SendMessages) (chat : Option String) : List QueuedRow :=
  line QueuedRow.tlgchatId age messages.pending chat

def waitingChats (messages : SendMessages) : List (Option String) :=
  (messages.pending.map QueuedRow.tlgchatId).dedup

variable {messages : SendMessages}

/-- No two rows are of one age. -/
theorem ages_nodup (messages : SendMessages) : (messages.pending.map age).Nodup := by
  refine List.Nodup.of_map (fun moment => (ofLex moment).2) ?_
  rw [List.map_map]
  exact messages.keys_nodup.sublist (List.filter_sublist.map _)

theorem limited_eq_take (limit : Int) (rows : List QueuedRow) :
    ∃ count, limited limit rows = rows.take count ∧ (0 ≤ limit → count = limit.toNat) := by
  unfold limited
  by_cases negative : limit < 0
  · rw [if_pos negative]
    refine ⟨rows.length, (List.take_length).symm, ?_⟩
    intro positive
    omega
  · rw [if_neg negative]
    exact ⟨limit.toNat, rfl, fun _ => rfl⟩

theorem rowNumber_oldest {chat : Option String} {row : QueuedRow} {position : Nat}
    (found : (oldest messages chat)[position]? = some row) :
    row ∈ messages.pending ∧ rowNumber QueuedRow.tlgchatId age messages.pending row = position + 1 := by
  obtain ⟨inside, same⟩ := List.getElem?_eq_some_iff.mp found
  have split : oldest messages chat =
      (oldest messages chat).take position ++ row :: (oldest messages chat).drop (position + 1) := by
    rw [← same, List.getElem_cons_drop, List.take_append_drop]
  have front : ((oldest messages chat).take position).length = position := List.length_take_of_le inside.le
  have member : row ∈ oldest messages chat := List.mem_of_getElem? found
  refine ⟨(mem_line.mp member).1, ?_⟩
  rw [rowNumber_of_split (ages_nodup messages) split, front]

/-- Each chat has its oldest rows taken, no more than its share and at least one where none is left for another; a
chat's later row waits for every chat's earlier one. -/
theorem noChatStarves (messages : SendMessages) (limit perChat : Int) :
    (∀ chat, ((fetchPending limit (some perChat) messages).filter fun row => row.tlgchatId = chat) <+:
          oldest messages chat ∧
        (((fetchPending limit (some perChat) messages).filter fun row => row.tlgchatId = chat).length : Int) ≤
          max 1 perChat) ∧
      (∀ front row back, fetchPending limit (some perChat) messages = front ++ row :: back →
        ∀ later : Nat, (oldest messages row.tlgchatId)[later]? = some row →
          ∀ chat (earlier : Nat) other, earlier < later → (oldest messages chat)[earlier]? = some other → other ∈ front) ∧
      (((waitingChats messages).length : Int) ≤ limit → ∀ row ∈ messages.pending,
        ∃ first ∈ fetchPending limit (some perChat) messages, first.tlgchatId = row.tlgchatId) := by
  obtain ⟨count, cut, whole⟩ := limited_eq_take limit
    (turns QueuedRow.tlgchatId age (max 1 perChat).toNat messages.pending)
  have taken : fetchPending limit (some perChat) messages =
      (turns QueuedRow.tlgchatId age (max 1 perChat).toNat messages.pending).take count := cut
  rw [taken]
  refine ⟨?_, ?_, ?_⟩
  · intro chat
    obtain ⟨kept, few⟩ := filter_take_turns_prefix (ages_nodup messages)
      (max 1 perChat).toNat count chat
    exact ⟨kept, by omega⟩
  · intro front row back split later found chat earlier other below there
    obtain ⟨-, number⟩ := rowNumber_oldest found
    obtain ⟨present, lower⟩ := rowNumber_oldest there
    refine lower_number_first split present ?_
    omega
  · intro enough row waiting
    obtain ⟨first, there, same, number⟩ := exists_first QueuedRow.tlgchatId (ages_nodup messages) waiting
    have room : (messages.pending.map QueuedRow.tlgchatId).dedup.length ≤ count := by
      rw [whole (by omega)]
      unfold waitingChats at enough
      omega
    have positive : 0 < (max 1 perChat).toNat := by omega
    exact ⟨first, first_taken (ages_nodup messages) positive room there number, same⟩

def oneWaiting : SendMessages := ⟨[⟨1, 0, some "ops", .pending⟩], by decide⟩

/-- A share of none is a share of one. -/
theorem a_share_of_none : ¬∀ messages limit perChat chat,
    (((fetchPending limit (some perChat) messages).filter fun row => row.tlgchatId = chat).length : Int) ≤ perChat := by
  intro bounded
  exact absurd (bounded oneWaiting 50 0 (some "ops")) (by decide)

end DbaBrain.Telegram.PendingSends
