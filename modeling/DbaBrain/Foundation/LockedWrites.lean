import DbaBrain.Foundation.Execution

/-!
# Read-modify-write calls of one file

Writers read a file and write back what they made of it.  Some hold the file's
lock in between and some do not.  While nobody writes between another's reading
and writing, the calls are as if made one after another.
-/

namespace DbaBrain.Foundation.LockedWrites

open Execution

/-- What the calls do: whether one holds the lock, and what it answers and writes over what it read. -/
structure Calls (κ φ α : Type) where
  locks : κ → Bool
  answer : κ → φ → α
  write : κ → φ → Option φ

/-- Where a writer is in its call. -/
inductive Phase (κ φ α : Type)
  | idle
  | waiting (call : κ)
  | inside (call : κ)
  | read (call : κ) (seen : φ)
  | written (call : κ) (answer : α)

inductive Label (κ : Type)
  | opened (writer : Nat) (call : κ)
  | locked (writer : Nat)
  | reads (writer : Nat)
  | writes (writer : Nat)
  | leaves (writer : Nat)
  | killed (writer : Nat)

structure State (κ φ α : Type) where
  file : φ
  holder : Option Nat
  phase : Nat → Phase κ φ α
  answered : List (κ × α)

variable {κ φ α : Type}

namespace State

def start (file : φ) : State κ φ α := ⟨file, none, fun _ => .idle, []⟩

def enter (s : State κ φ α) (writer : Nat) (phase : Phase κ φ α) : State κ φ α :=
  { s with phase := Function.update s.phase writer phase }

/-- The writer's lock goes with its handle. -/
def free (s : State κ φ α) (writer : Nat) : State κ φ α :=
  { s with holder := if s.holder = some writer then none else s.holder }

end State

def Calls.after (calls : Calls κ φ α) (call : κ) (file : φ) : φ := (calls.write call file).getD file

def step (calls : Calls κ φ α) (s : State κ φ α) : Label κ → Option (State κ φ α)
  | .opened writer call =>
      match s.phase writer with
      | .idle => some (s.enter writer (.waiting call))
      | _ => none
  | .locked writer =>
      match s.phase writer, s.holder with
      | .waiting call, none =>
          if calls.locks call then some { s.enter writer (.inside call) with holder := some writer } else none
      | _, _ => none
  | .reads writer =>
      match s.phase writer with
      | .waiting call => if calls.locks call then none else some (s.enter writer (.read call s.file))
      | .inside call => some (s.enter writer (.read call s.file))
      | _ => none
  | .writes writer =>
      match s.phase writer with
      | .read call seen =>
          some { s.enter writer (.written call (calls.answer call seen)) with
            file := (calls.write call seen).getD s.file }
      | _ => none
  | .leaves writer =>
      match s.phase writer with
      | .written call answer =>
          some { (s.enter writer .idle).free writer with answered := s.answered ++ [(call, answer)] }
      | _ => none
  | .killed writer => some ((s.enter writer .idle).free writer)

/-- The calls made one after another, each answering from what those before it left. -/
inductive Serial (calls : Calls κ φ α) (start : φ) : List (κ × α) → φ → Prop
  | nil : Serial calls start [] start
  | snoc {order : List (κ × α)} {file : φ} (before : Serial calls start order file) (call : κ) :
      Serial calls start (order ++ [(call, calls.answer call file)]) (calls.after call file)

/-- Nobody who holds the lock has read. -/
def NoneHeld (calls : Calls κ φ α) (s : State κ φ α) : Prop :=
  ∀ writer call seen, s.phase writer = .read call seen → calls.locks call = false

/-- The calls opened are allowed ones, and a call that does not hold the lock writes over what it read, between no
other's reading and writing under the lock. -/
def Undisturbed (calls : Calls κ φ α) (allowed : κ → Prop) (s : State κ φ α) : Label κ → State κ φ α → Prop
  | .opened _ call, _ => allowed call
  | .writes writer, _ => ∀ call seen, s.phase writer = .read call seen → calls.locks call = false →
      seen = s.file ∧ NoneHeld calls s
  | _, _ => True

/-- What is known of a writer by where it is. -/
def Placed (calls : Calls κ φ α) (allowed : κ → Prop) (file : φ) (holder : Option Nat) (order : List (κ × α))
    (writer : Nat) : Phase κ φ α → Prop
  | .idle => True
  | .waiting call => allowed call
  | .inside call => allowed call ∧ holder = some writer
  | .read call seen => allowed call ∧ (calls.locks call = true → holder = some writer ∧ seen = file)
  | .written call answer => (call, answer) ∈ order

/-- The state is one that calls made one after another lead to, and the calls that answered are among them. -/
def Ordered (calls : Calls κ φ α) (allowed : κ → Prop) (start : φ) (s : State κ φ α) : Prop :=
  ∃ order, Serial calls start order s.file ∧ (∀ entry ∈ order, allowed entry.1) ∧
    (∀ writer, Placed calls allowed s.file s.holder order writer (s.phase writer)) ∧ ∀ entry ∈ s.answered, entry ∈ order

section Steps

variable {calls : Calls κ φ α} {allowed : κ → Prop} {file file' begun : φ} {holder holder' : Option Nat}
  {order order' : List (κ × α)} {writer : Nat} {phase : Phase κ φ α} {phases : Nat → Phase κ φ α}
  {s next : State κ φ α} {label : Label κ}

/-- What is known of a writer stays known while it keeps the lock and nobody writes under it. -/
theorem Placed.kept (placed : Placed calls allowed file holder order writer phase)
    (holds : holder = some writer → holder' = some writer) (more : order ⊆ order')
    (same : ∀ call seen, phase = .read call seen → calls.locks call = true → holder = some writer → file' = file) :
    Placed calls allowed file' holder' order' writer phase := by
  cases phase with
  | idle => trivial
  | waiting call => exact placed
  | inside call => exact ⟨placed.1, holds placed.2⟩
  | read call seen =>
    refine ⟨placed.1, fun locks => ?_⟩
    obtain ⟨own, reads⟩ := placed.2 locks
    exact ⟨holds own, reads.trans (same call seen rfl locks own).symm⟩
  | written call answer => exact more placed

theorem placed_update (own : Placed calls allowed file holder order writer phase)
    (others : ∀ other, other ≠ writer → Placed calls allowed file holder order other (phases other)) (other : Nat) :
    Placed calls allowed file holder order other (Function.update phases writer phase other) := by
  rcases eq_or_ne other writer with rfl | differs
  · rw [Function.update_self]
    exact own
  · rw [Function.update_of_ne differs]
    exact others other differs

theorem free_of_ne {other : Nat} (differs : other ≠ writer) (holds : s.holder = some other) :
    (s.free writer).holder = some other := by
  rw [State.free, if_neg fun own => differs (Option.some.inj (holds.symm.trans own))]
  exact holds

theorem ordered_step (enabled : step calls s label = some next) (undisturbed : Undisturbed calls allowed s label next)
    (ordered : Ordered calls allowed begun s) : Ordered calls allowed begun next := by
  obtain ⟨order, serial, all, placed, answered⟩ := ordered
  cases label with
  | opened writer call =>
    simp only [step] at enabled
    split at enabled
    · cases enabled
      exact ⟨order, serial, all, placed_update undisturbed fun other _ => placed other, answered⟩
    · cases enabled
  | locked writer =>
    simp only [step] at enabled
    split at enabled
    · rename_i call waits free
      split at enabled
      · cases enabled
        have opened := placed writer
        rw [waits] at opened
        refine ⟨order, serial, all, placed_update ⟨opened, rfl⟩ fun other _ => ?_, answered⟩
        exact (placed other).kept (fun own => absurd (free.symm.trans own) nofun) (fun _ => id) fun _ _ _ _ _ => rfl
      · cases enabled
    · cases enabled
  | reads writer =>
    simp only [step] at enabled
    have own := placed writer
    split at enabled
    · rename_i call waits
      split at enabled
      · cases enabled
      · rename_i unlocked
        cases enabled
        rw [waits] at own
        exact ⟨order, serial, all,
          placed_update ⟨own, fun locks => absurd locks unlocked⟩ fun other _ => placed other, answered⟩
    · rename_i call holds
      cases enabled
      rw [holds] at own
      exact ⟨order, serial, all, placed_update ⟨own.1, fun _ => ⟨own.2, rfl⟩⟩ fun other _ => placed other, answered⟩
    · cases enabled
  | writes writer =>
    simp only [step] at enabled
    split at enabled
    · rename_i call seen reads
      cases enabled
      have own := placed writer
      rw [reads] at own
      -- Under the lock nobody wrote since; without it the run says so.
      have current : seen = s.file := by
        cases locks : calls.locks call with
        | true => exact (own.2 locks).2
        | false => exact (undisturbed call seen reads locks).1
      subst current
      refine ⟨order ++ [(call, calls.answer call s.file)], serial.snoc call, ?_, ?_, ?_⟩
      · intro entry member
        rcases List.mem_append.mp member with before | last
        · exact all entry before
        · exact List.mem_singleton.mp last ▸ own.1
      · refine placed_update (List.mem_append_right _ List.mem_cons_self) fun other differs => ?_
        refine (placed other).kept id (List.subset_append_left _ _) fun call' seen' held locked holds => ?_
        cases locks : calls.locks call with
        | true => exact absurd (Option.some.inj (holds.symm.trans (own.2 locks).1)) differs
        | false =>
          have none := (undisturbed call s.file reads locks).2 other call' seen' held
          exact absurd (none.symm.trans locked) nofun
      · exact fun entry member => List.mem_append_left _ (answered entry member)
    · cases enabled
  | leaves writer =>
    simp only [step] at enabled
    split at enabled
    · rename_i call answer wrote
      cases enabled
      have own := placed writer
      rw [wrote] at own
      refine ⟨order, serial, all, placed_update trivial fun other differs => ?_, fun entry member => ?_⟩
      · exact (placed other).kept (free_of_ne differs) (fun _ => id) fun _ _ _ _ _ => rfl
      · rcases List.mem_append.mp member with before | last
        · exact answered entry before
        · exact List.mem_singleton.mp last ▸ own
    · cases enabled
  | killed writer =>
    cases enabled
    refine ⟨order, serial, all, placed_update trivial fun other differs => ?_, answered⟩
    exact (placed other).kept (free_of_ne differs) (fun _ => id) fun _ _ _ _ _ => rfl

/-- An undisturbed run leaves the file as its calls do one after another, and each answer is one of that order. -/
theorem ordered_exec {final : State κ φ α} (run : exec (step calls) (.start begun) labels = some final)
    (undisturbed : Every (step calls) (Undisturbed calls allowed) (.start begun) labels) :
    Ordered calls allowed begun final :=
  exec_invariant_of_every (fun _ _ _ enabled now => ordered_step enabled now) undisturbed
    ⟨[], .nil, nofun, fun _ => trivial, nofun⟩ run

/-- What every allowed call keeps and one of them establishes holds from that one on. -/
theorem Serial.stays {holds : φ → Prop} (serial : Serial calls begun order file)
    (all : ∀ entry ∈ order, allowed entry.1)
    (kept : ∀ call, allowed call → ∀ file, holds file → holds (calls.after call file))
    {entry : κ × α} (member : entry ∈ order)
    (established : ∀ file, calls.answer entry.1 file = entry.2 → holds (calls.after entry.1 file)) : holds file := by
  induction serial with
  | nil => cases member
  | @snoc order file before call ih =>
    rcases List.mem_append.mp member with earlier | last
    · have here := ih (fun entry member => all entry (List.mem_append_left _ member)) earlier
      exact kept call (all _ (List.mem_append_right _ List.mem_cons_self)) file here
    · obtain rfl := List.mem_singleton.mp last
      exact established file rfl

/-! ## Calls that are not interrupted -/

variable {call : κ} {labels : List (Label κ)}

/-- What is left of a waiting writer's call. -/
def Calls.remainder (calls : Calls κ φ α) (writer : Nat) (call : κ) : List (Label κ) :=
  (if calls.locks call then [.locked writer] else []) ++ [.reads writer, .writes writer, .leaves writer]

def State.complete (calls : Calls κ φ α) (s : State κ φ α) (writer : Nat) (call : κ) : State κ φ α :=
  ⟨calls.after call s.file, none, Function.update s.phase writer .idle,
    s.answered ++ [(call, calls.answer call s.file)]⟩

theorem noneHeld_enter (none : NoneHeld calls s)
    (own : ∀ call seen, phase = .read call seen → calls.locks call = false) :
    NoneHeld calls (s.enter writer phase) := by
  intro other call seen held
  replace held : Function.update s.phase writer phase other = .read call seen := held
  rcases eq_or_ne other writer with rfl | differs
  · rw [Function.update_self] at held
    exact own call seen held
  · rw [Function.update_of_ne differs] at held
    exact none other call seen held

theorem noneHeld_waiting (none : NoneHeld calls s) : NoneHeld calls (s.enter writer (.waiting call)) := by
  refine noneHeld_enter none fun _ _ read => ?_
  cases read

theorem noneHeld_complete (none : NoneHeld calls s) : NoneHeld calls (s.complete calls writer call) := by
  refine noneHeld_enter none fun _ _ read => ?_
  cases read

theorem every_opened (idle : s.phase writer = .idle) (allows : allowed call)
    (later : Every (step calls) (Undisturbed calls allowed) (s.enter writer (.waiting call)) labels) :
    Every (step calls) (Undisturbed calls allowed) s (.opened writer call :: labels) :=
  (every_cons_of_eq_some (by simp [step, idle])).mpr ⟨allows, later⟩

/-- A writer that is killed before it writes leaves everything as it was. -/
theorem every_killed (idle : s.phase writer = .idle) (free : s.holder = none) (allows : allowed call)
    (locks : calls.locks call = true) (later : Every (step calls) (Undisturbed calls allowed) s labels) :
    Every (step calls) (Undisturbed calls allowed) s
      (.opened writer call :: .locked writer :: .reads writer :: .killed writer :: labels) := by
  obtain ⟨file, holder, phases, answered⟩ := s
  obtain rfl : holder = none := free
  replace idle : phases writer = .idle := idle
  have same : Function.update phases writer .idle = phases := idle ▸ Function.update_eq_self writer phases
  simpa [Every, step, idle, locks, State.enter, State.free, Undisturbed, same] using ⟨allows, later⟩

theorem every_remainder (waits : s.phase writer = .waiting call) (free : s.holder = none) (none : NoneHeld calls s)
    (later : Every (step calls) (Undisturbed calls allowed) (s.complete calls writer call) labels) :
    Every (step calls) (Undisturbed calls allowed) s (calls.remainder writer call ++ labels) := by
  have after := later
  unfold State.complete Calls.after at after
  unfold Calls.remainder
  cases locks : calls.locks call with
  | true => simpa [Every, step, waits, free, locks, State.enter, State.free, Undisturbed] using after
  | false =>
    have unlocked : NoneHeld calls (s.enter writer (.read call s.file)) := by
      refine noneHeld_enter none fun own seen read => ?_
      cases read
      exact locks
    simpa [Every, step, waits, free, locks, State.enter, State.free, Undisturbed] using ⟨unlocked, after⟩

end Steps

end DbaBrain.Foundation.LockedWrites
