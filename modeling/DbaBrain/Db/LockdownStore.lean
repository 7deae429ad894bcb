import DbaBrain.Foundation.Sql
import DbaBrain.Foundation.Execution
import DbaBrain.Foundation.Text

/-!
# Lockdowns

The table `lockdowns` and the calls that open and close one.  `engage` looks
for an open lockdown in one statement and inserts its own in the next, and
`release` reads the open one before it ends it, so calls interleave between
their statements.  One unique index allows one open row, the other one row of
a start second and an actor, open or ended.
-/

namespace DbaBrain.Db.LockdownStore

open DbaBrain.Foundation DbaBrain.Foundation.Sql DbaBrain.Foundation.Execution

inductive Column
  | startedAt
  | startedBy
  | reason
  | endedAt
  | endedBy
  | endNote

/-- `ux_lockdowns_open`. -/
def openKey (row : Column → Value) : Option (List Value) :=
  if row .endedAt = .null then some [.integer 1] else none

def lockdowns : Schema Column where
  columns := [.startedAt, .startedBy, .reason, .endedAt, .endedBy, .endNote]
  complete column := by cases column <;> simp
  affinity _ := .text
  required := [.startedAt, .startedBy, .reason]
  default _ _ := .null
  checks := []
  unique := [keyOf [.startedAt, .startedBy], openKey]
  firsts := []
  firsts_default _ _ _ := rfl

/-- `by or "unknown"`. -/
def actor (name : String) : String := if name = "" then "unknown" else name

/-- The row an `engage` inserts. -/
def engaged (now reason name : String) : Values Column
  | .startedAt => some (.text now)
  | .startedBy => some (.text (actor name))
  | .reason => some (.text (Text.take 1000 reason))
  | _ => none

/-- What a `release` sets. -/
def ended (now name note : String) : Values Column
  | .endedAt => some (.text now)
  | .endedBy => some (.text (actor name))
  | .endNote => some (.text (Text.take 1000 note))
  | _ => none

/-- A text that states nothing. -/
def Blank (text : String) : Prop := Text.strip text = ""

instance (text : String) : Decidable (Blank text) := inferInstanceAs (Decidable (_ = _))

abbrev Lockdowns (storage : Storage) := Rows storage lockdowns

abbrev Entry := Int × (Column → Value)

section Table

variable {storage : Storage} (table : Lockdowns storage)

/-- The open lockdown. -/
def active : Option Entry := (table.rows.filter fun entry => entry.2 .endedAt = .null).getLast?

/-- A lockdown is open. -/
def On : Prop := ∃ entry ∈ table.rows, entry.2 .endedAt = .null

instance : Decidable (On table) := inferInstanceAs (Decidable (∃ entry ∈ table.rows, entry.2 .endedAt = .null))

/-- Every open lockdown is the same one. -/
def OneOpen : Prop := ∀ entry ∈ table.rows, ∀ other ∈ table.rows,
  entry.2 .endedAt = .null → other.2 .endedAt = .null → entry = other

/-- A lockdown, open or ended, started in this second by this actor. -/
def Started (now name : String) : Prop :=
  ∃ entry ∈ table.rows, entry.2 .startedAt = .text now ∧ entry.2 .startedBy = .text (actor name)

instance (now name : String) : Decidable (Started table now name) :=
  inferInstanceAs (Decidable (∃ entry ∈ table.rows, _ ∧ _))

variable {table}

theorem active_eq_none_iff : active table = none ↔ ¬ On table := by
  simp [active, On]

/-- The index of the open row is what keeps a second one out. -/
theorem oneOpen (table : Lockdowns storage) : OneOpen table := by
  intro entry member other present isOpen alsoOpen
  have listed : openKey ∈ lockdowns.unique := by simp [lockdowns]
  exact Rows.eq_of_index_eq listed member present (if_pos isOpen) (if_pos alsoOpen)

section Engaged

variable {now clock reason name : String}

theorem inserted_engaged (column : Column) :
    lockdowns.inserted storage clock (engaged now reason name) column = (engaged now reason name column).getD .null := by
  cases column <;> simp [Schema.inserted, engaged, lockdowns, storage.bind_text]

theorem valid_engaged : lockdowns.Valid (lockdowns.inserted storage clock (engaged now reason name)) := by
  constructor
  · intro column required
    rw [inserted_engaged]
    fin_cases required <;> simp [engaged]
  · simp [lockdowns]

theorem binds_engaged : lockdowns.Binds storage (engaged now reason name) := by
  intro column _ value named
  cases column <;> cases named <;> simp [lockdowns, storage.bind_text]

/-- An insert is refused while a lockdown is open, and for a start second the actor has used. -/
theorem insert?_engaged_eq_none_iff :
    table.insert? clock (engaged now reason name) = none ↔ Started table now name ∨ On table := by
  rw [Rows.insert?_eq_none_iff binds_engaged valid_engaged]
  have startKey : keyOf [.startedAt, .startedBy] (lockdowns.inserted storage clock (engaged now reason name)) =
      some [.text now, .text (actor name)] := by
    simp [keyOf, inserted_engaged, engaged]
  have rowKey : openKey (lockdowns.inserted storage clock (engaged now reason name)) = some [.integer 1] := by
    simp [openKey, inserted_engaged, engaged]
  have started (entry : Entry) : keyOf [.startedAt, .startedBy] entry.2 = some [.text now, .text (actor name)] ↔
      entry.2 .startedAt = .text now ∧ entry.2 .startedBy = .text (actor name) := by
    simp only [keyOf, List.mem_cons, List.not_mem_nil, or_false, forall_eq_or_imp, forall_eq,
      Option.ite_none_right_eq_some, Option.some.injEq, List.map_cons, List.map_nil, List.cons.injEq, and_true]
    constructor
    · exact And.right
    · rintro ⟨second, who⟩
      exact ⟨⟨by simp [second], by simp [who]⟩, second, who⟩
  have opened (entry : Entry) : openKey entry.2 = some [.integer 1] ↔ entry.2 .endedAt = .null := by
    simp [openKey]
  have indexes : lockdowns.unique = [keyOf [.startedAt, .startedBy], openKey] := rfl
  simp only [indexes, List.mem_cons, List.not_mem_nil, or_false, exists_eq_or_imp, exists_eq_left, startKey, rowKey,
    Option.some.injEq, exists_eq_left', started, opened, Started, On]

theorem on_of_inserted {after : Lockdowns storage} (written : Rows.Inserted clock (engaged now reason name) table after) :
    On after := by
  have row : lockdowns.inserted storage clock (engaged now reason name) .endedAt = .null := inserted_engaged .endedAt
  refine ⟨(table.next, lockdowns.inserted storage clock (engaged now reason name)), ?_, row⟩
  exact written.rows ▸ List.mem_append_right _ (List.mem_singleton_self _)

end Engaged

end Table

/-! ## Calls -/

/-- How far a call has come. -/
inductive Phase
  /-- `engage` found none open. -/
  | looked (reason name : String)
  /-- `engage` inserted its row. -/
  | inserted
  /-- `release` read the open row. -/
  | reading (id : Int) (name note : String)

/-- The table, and the calls under way. -/
structure Shared (storage : Storage) where
  table : Lockdowns storage
  phase : Nat → Option Phase

def start (storage : Storage) : Shared storage := ⟨Rows.empty, fun _ => none⟩

/-- One statement of a call. -/
inductive Label
  | engage (call : Nat) (reason name : String)
  | insert (call : Nat) (now : String)
  | answer (call : Nat)
  | release (call : Nat) (name note : String)
  | update (call : Nat) (now : String)

/-- What a statement brings its call. -/
inductive Outcome
  | running
  /-- The request states too little. -/
  | requestError
  /-- A write the store refused. -/
  | integrityError
  | alreadyOn (current : Entry)
  | engaged (current : Option Entry)
  | noneOn
  | released (id : Int)

variable {storage : Storage}

namespace Shared

section Statements

variable (s : Shared storage) (call : Nat)

/-- The call is over. -/
def finish : Shared storage := { s with phase := Function.update s.phase call none }

def enter (phase : Phase) : Shared storage := { s with phase := Function.update s.phase call (some phase) }

def engage (reason name : String) : Outcome × Shared storage :=
  if Blank reason then (.requestError, s)
  else
    match active s.table with
    | some current => (.alreadyOn current, s)
    | none => (.running, s.enter call (.looked reason name))

/-- `INSERT` of `engage`. -/
def insert (reason name now : String) : Outcome × Shared storage :=
  match s.table.insert? now (engaged now reason name) with
  | none => (.integrityError, s.finish call)
  | some (_, table) => (.running, ⟨table, Function.update s.phase call (some .inserted)⟩)

/-- `release`, up to its look. -/
def release (name note : String) : Outcome × Shared storage :=
  if Blank note then (.requestError, s)
  else
    match active s.table with
    | none => (.noneOn, s)
    | some (id, _) => (.running, s.enter call (.reading id name note))

/-- `UPDATE` of `release`. -/
def update (id : Int) (name note now : String) : Outcome × Shared storage :=
  match s.table.update? id (ended now name note) with
  | none => (.integrityError, s.finish call)
  | some table => (.released id, ⟨table, Function.update s.phase call none⟩)

/-- A statement, where its call has come to it. -/
def perform : Label → Option (Outcome × Shared storage)
  | .engage call reason name => if (s.phase call).isNone then some (s.engage call reason name) else none
  | .insert call now =>
      match s.phase call with
      | some (.looked reason name) => some (s.insert call reason name now)
      | _ => none
  | .answer call =>
      match s.phase call with
      | some .inserted => some (.engaged (active s.table), s.finish call)
      | _ => none
  | .release call name note => if (s.phase call).isNone then some (s.release call name note) else none
  | .update call now =>
      match s.phase call with
      | some (.reading id name note) => some (s.update call id name note now)
      | _ => none

def step (label : Label) : Option (Shared storage) := (s.perform label).map Prod.snd

end Statements

section Spec

variable {s : Shared storage} {call : Nat} {reason name note now : String} {result : Outcome × Shared storage}

theorem engage_of_perform (performed : s.perform (.engage call reason name) = some result) :
    s.engage call reason name = result := (Option.ite_none_right_eq_some.mp performed).2 |> Option.some.inj

theorem release_of_perform (performed : s.perform (.release call name note) = some result) :
    s.release call name note = result := (Option.ite_none_right_eq_some.mp performed).2 |> Option.some.inj

theorem insert_of_perform (performed : s.perform (.insert call now) = some result) :
    ∃ reason name, s.phase call = some (.looked reason name) ∧ s.insert call reason name now = result := by
  unfold perform at performed
  rcases found : s.phase call with _ | phase
  · simp [found] at performed
  · cases phase with
    | looked reason name => exact ⟨reason, name, rfl, by simpa [found] using performed⟩
    | inserted => simp [found] at performed
    | reading id name note => simp [found] at performed

theorem answer_of_perform (performed : s.perform (.answer call) = some result) :
    (.engaged (active s.table), s.finish call) = result := by
  unfold perform at performed
  rcases found : s.phase call with _ | phase
  · simp [found] at performed
  · cases phase with
    | looked reason name => simp [found] at performed
    | inserted => simpa [found] using performed
    | reading id name note => simp [found] at performed

theorem engage_cases (s : Shared storage) (call : Nat) (reason name : String) :
    (Blank reason ∧ s.engage call reason name = (.requestError, s)) ∨
      ¬ Blank reason ∧ ((∃ current, active s.table = some current ∧ s.engage call reason name = (.alreadyOn current, s)) ∨
        active s.table = none ∧ s.engage call reason name = (.running, s.enter call (.looked reason name))) := by
  unfold engage
  split
  · rename_i blank
    exact Or.inl ⟨blank, rfl⟩
  · rename_i stated
    refine Or.inr ⟨stated, ?_⟩
    split
    · rename_i current found
      exact Or.inl ⟨current, found, rfl⟩
    · rename_i found
      exact Or.inr ⟨found, rfl⟩

theorem insert_cases (s : Shared storage) (call : Nat) (reason name now : String) :
    (s.table.insert? now (engaged now reason name) = none ∧
        s.insert call reason name now = (.integrityError, s.finish call)) ∨
      ∃ id table, s.table.insert? now (engaged now reason name) = some (id, table) ∧
        s.insert call reason name now = (.running, ⟨table, Function.update s.phase call (some .inserted)⟩) := by
  unfold insert
  split
  · rename_i refused
    exact Or.inl ⟨refused, rfl⟩
  · rename_i id table accepted
    exact Or.inr ⟨id, table, accepted, rfl⟩

theorem table_release (s : Shared storage) (call : Nat) (name note : String) :
    (s.release call name note).2.table = s.table := by
  unfold release
  split
  · rfl
  · split <;> rfl

end Spec

end Shared

/-! ## What a lockdown is for -/

/-- A statement with which an `engage` takes effect: it finds a lockdown open, or inserts its own. -/
def takesEffect (s : Shared storage) (label : Label) : Bool :=
  match s.perform label, label with
  | some (.alreadyOn _, _), .engage _ _ _ => true
  | some (.running, _), .insert _ _ => true
  | _, _ => false

/-- A statement with which an `engage` fails. -/
def fails (s : Shared storage) (label : Label) : Bool :=
  match s.perform label, label with
  | some (.requestError, _), .engage _ _ _ => true
  | some (.integrityError, _), .insert _ _ => true
  | _, _ => false

def Label.isUpdate : Label → Bool
  | .update _ _ => true
  | _ => false

/-- In this run no two lockdowns are ever open, the lockdown an `engage` answers or opens stays on
until a release ends one, and no `engage` fails while none is on. -/
structure AlwaysEngages (s : Shared storage) (labels : List Label) : Prop where
  oneOpen : Every Shared.step (fun _ _ after => OneOpen after.table) s labels
  staysOn : ∀ front effect held back, labels = front ++ effect :: held ++ back → (∀ label ∈ held, ¬ label.isUpdate) →
    ∀ before after, exec Shared.step s front = some before → takesEffect before effect →
      exec Shared.step before (effect :: held) = some after → On after.table
  answered : Every Shared.step (fun before label after => fails before label → On after.table) s labels

/-- The statement asks for nothing the table refuses while no lockdown is on: no reason is blank, and no
actor starts a second lockdown in a second in which one of its own has started. -/
def Free (s : Shared storage) : Label → Prop
  | .engage _ reason _ => Blank reason → On s.table
  | .insert call now => ∀ reason name, s.phase call = some (.looked reason name) → Started s.table now name → On s.table
  | _ => True

section Steps

variable {s next : Shared storage} {label : Label}

/-- What a statement leaves in the table. -/
inductive Effect (s : Shared storage) : Label → Shared storage → Prop
  | reads {label : Label} {next : Shared storage} (same : next.table = s.table) : Effect s label next
  | inserts {call : Nat} {now reason name : String} {next : Shared storage}
      (written : Rows.Inserted now (engaged now reason name) s.table next.table) : Effect s (.insert call now) next
  | ends {call : Nat} {now : String} {next : Shared storage} : Effect s (.update call now) next

theorem effect_of_step (ran : s.step label = some next) : Effect s label next := by
  obtain ⟨result, performed, rfl⟩ := Option.map_eq_some_iff.mp ran
  cases label with
  | engage call reason name =>
    obtain rfl := Shared.engage_of_perform performed
    rcases s.engage_cases call reason name with ⟨_, did⟩ | ⟨_, ⟨_, _, did⟩ | ⟨_, did⟩⟩ <;> exact .reads (by rw [did] <;> rfl)
  | insert call now =>
    obtain ⟨reason, name, _, rfl⟩ := Shared.insert_of_perform performed
    rcases s.insert_cases call reason name now with ⟨_, did⟩ | ⟨id, table, accepted, did⟩
    · exact .reads (by rw [did]; rfl)
    · exact .inserts (by rw [did]; exact (Rows.inserted_of_insert? accepted).2)
  | answer call =>
    obtain rfl := Shared.answer_of_perform performed
    exact .reads rfl
  | release call name note =>
    obtain rfl := Shared.release_of_perform performed
    exact .reads (s.table_release call name note)
  | update call now => exact .ends

/-- Only a release's update ends a lockdown. -/
theorem on_step (ran : s.step label = some next) (kept : ¬ label.isUpdate) (on : On s.table) : On next.table := by
  cases effect_of_step ran with
  | reads same => exact same ▸ on
  | inserts written =>
    obtain ⟨entry, member, isOpen⟩ := on
    exact ⟨entry, written.rows ▸ List.mem_append_left _ member, isOpen⟩
  | ends => exact absurd rfl kept

theorem on_of_takesEffect (ran : s.step label = some next) (effect : takesEffect s label) : On next.table := by
  obtain ⟨⟨outcome, after⟩, performed, rfl⟩ := Option.map_eq_some_iff.mp ran
  unfold takesEffect at effect
  rw [performed] at effect
  cases label with
  | engage call reason name =>
    have engages := Shared.engage_of_perform performed
    rcases s.engage_cases call reason name with ⟨_, did⟩ | ⟨_, ⟨current, found, did⟩ | ⟨_, did⟩⟩
    · cases did.symm.trans engages
      cases effect
    · cases did.symm.trans engages
      by_contra off
      rw [active_eq_none_iff.mpr off] at found
      cases found
    · cases did.symm.trans engages
      cases effect
  | insert call now =>
    obtain ⟨reason, name, _, inserts⟩ := Shared.insert_of_perform performed
    rcases s.insert_cases call reason name now with ⟨_, did⟩ | ⟨id, table, accepted, did⟩
    · cases did.symm.trans inserts
      cases effect
    · cases did.symm.trans inserts
      exact on_of_inserted (Rows.inserted_of_insert? accepted).2
  | answer call => cases outcome <;> cases effect
  | release call name note => cases outcome <;> cases effect
  | update call now => cases outcome <;> cases effect

/-- A statement leaves an `engage` failed with no lockdown on exactly when it is not free. -/
theorem fails_iff (ran : s.step label = some next) : (fails s label → On next.table) ↔ Free s label := by
  obtain ⟨⟨outcome, after⟩, performed, rfl⟩ := Option.map_eq_some_iff.mp ran
  unfold fails
  rw [performed]
  cases label with
  | engage call reason name =>
    have engages := Shared.engage_of_perform performed
    rcases s.engage_cases call reason name with ⟨blank, did⟩ | ⟨stated, ⟨current, _, did⟩ | ⟨_, did⟩⟩
    · cases did.symm.trans engages
      exact ⟨fun on _ => on rfl, fun free _ => free blank⟩
    · cases did.symm.trans engages
      exact iff_of_true (by simp) fun blank => absurd blank stated
    · cases did.symm.trans engages
      exact iff_of_true (by simp) fun blank => absurd blank stated
  | insert call now =>
    obtain ⟨reason, name, looked, inserts⟩ := Shared.insert_of_perform performed
    have free : Free s (.insert call now) ↔ (Started s.table now name → On s.table) := by
      constructor
      · intro all
        exact all reason name looked
      · intro one reason' name' looked'
        cases looked.symm.trans looked'
        exact one
    rw [free]
    rcases s.insert_cases call reason name now with ⟨refused, did⟩ | ⟨id, table, accepted, did⟩
    · cases did.symm.trans inserts
      have taken : Started s.table now name ∨ On s.table := insert?_engaged_eq_none_iff.mp refused
      constructor
      · intro on _
        exact on rfl
      · intro on _
        exact taken.elim on id
    · cases did.symm.trans inserts
      refine iff_of_true (by simp) ?_
      intro started
      rw [insert?_engaged_eq_none_iff.mpr (Or.inl started)] at accepted
      cases accepted
  | answer call => cases outcome <;> exact iff_of_true (by simp) trivial
  | release call name note => cases outcome <;> exact iff_of_true (by simp) trivial
  | update call now => cases outcome <;> exact iff_of_true (by simp) trivial

end Steps

theorem on_exec {s final : Shared storage} {labels : List Label} (kept : ∀ label ∈ labels, ¬ label.isUpdate)
    (on : On s.table) (run : exec Shared.step s labels = some final) : On final.table := by
  induction labels generalizing s with
  | nil =>
    obtain rfl := Option.some.inj run
    exact on
  | cons label rest ih =>
    obtain ⟨next, ran, later⟩ := exec_cons_eq_some.mp run
    have stillOn := on_step ran (kept label List.mem_cons_self) on
    exact ih (fun other member => kept other (List.mem_cons_of_mem label member)) stillOn later

/-- Whatever calls interleave, no two lockdowns are open and none ends without a release; an `engage`
fails with none on exactly where a statement of the run is not free. -/
theorem alwaysEngages_iff (s : Shared storage) (labels : List Label) :
    AlwaysEngages s labels ↔ Every Shared.step (fun before label _ => Free before label) s labels := by
  constructor
  · intro engages
    exact engages.answered.imp fun before label after ran answered => (fails_iff ran).mp answered
  · intro free
    refine ⟨?_, ?_, ?_⟩
    · exact (every_true s labels).imp fun _ _ after _ _ => oneOpen after.table
    · rintro front effect held back rfl kept before after _ takes run
      obtain ⟨next, ran, later⟩ := exec_cons_eq_some.mp run
      exact on_exec kept (on_of_takesEffect ran takes) later
    · exact free.imp fun before label after ran free => (fails_iff ran).mpr free

theorem zero_ne_empty : "0.0" ≠ "" := by decide

/-- SQLite, as it converts the texts and numbers of this table. -/
def textStorage : Storage := sqlite ⟨fun _ => "0.0", fun _ => zero_ne_empty, fun _ => none⟩

/-- One actor engages a lockdown and releases it, and looks again within the second. -/
def quickCalls : List Label :=
  [.engage 0 "the scrub found changed files" "dbabrain", .insert 0 "2026-10-30T02:00:00Z", .answer 0,
    .release 1 "dbabrain" "a false alarm", .update 1 "2026-10-30T02:00:00Z", .engage 2 "files are gone" "dbabrain"]

/-- Its second lockdown of the second is refused, and none is on. -/
theorem quick_second_engage_fails :
    ¬ AlwaysEngages (start textStorage) (quickCalls ++ [.insert 2 "2026-10-30T02:00:00Z"]) := by
  intro engages
  obtain ⟨before, run⟩ : ∃ before, exec Shared.step (start textStorage) quickCalls = some before := ⟨_, rfl⟩
  obtain ⟨after, ran⟩ : ∃ after, before.step (.insert 2 "2026-10-30T02:00:00Z") = some after := by
    obtain rfl := Option.some.inj run
    exact ⟨_, rfl⟩
  have failed := engages.answered.last run ran
  obtain rfl := Option.some.inj run
  obtain rfl := Option.some.inj ran
  exact absurd (failed rfl) (by decide +kernel)

end DbaBrain.Db.LockdownStore
