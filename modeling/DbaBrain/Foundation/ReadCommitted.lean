import DbaBrain.Foundation.Execution

/-!
# Closing the live row and inserting the next

A call is a transaction that closes its key's live rows and inserts a live one,
with the key's next number where rows are numbered.  Each statement sees what
is committed when it starts; a row another call has changed is waited for, and
looked at again.  Calls on one key that do not overlap leave one live row and
the numbers one after another.
-/

namespace DbaBrain.Foundation.ReadCommitted

open Execution

structure Shape (ρ κ : Type) where
  id : ρ → Nat
  key : ρ → κ
  live : ρ → Bool
  number : ρ → Nat
  numbered : Bool
  close : Int → ρ → ρ
  close_key : ∀ now row, key (close now row) = key row
  close_number : ∀ now row, number (close now row) = number row
  close_live : ∀ now row, live (close now row) = false

/-- What a call inserts: with the id it is given, after the last number it has read. -/
structure Request {ρ κ : Type} (shape : Shape ρ κ) where
  key : κ
  now : Int
  make : Nat → Nat → ρ
  make_key : ∀ id last, shape.key (make id last) = key
  make_live : ∀ id last, shape.live (make id last) = true
  make_number : shape.numbered = true → ∀ id last, shape.number (make id last) = last + 1

/-- How far a call has come; the ids are of the rows it closes. -/
inductive Phase (ρ : Type)
  | idle
  /-- Its first statement has found its rows. -/
  | closing (targets : List Nat)
  | closed (targets : List Nat)
  /-- It has read the last number. -/
  | counted (targets : List Nat) (last : Nat)
  | inserted (targets : List Nat) (row : ρ)
  | committed
  | failed
  | killed

namespace Phase

variable {ρ : Type}

/-- The rows an open call closes. -/
def targets? : Phase ρ → Option (List Nat)
  | .closing targets => some targets
  | .closed targets => some targets
  | .counted targets _ => some targets
  | .inserted targets _ => some targets
  | _ => none

def isOpen (phase : Phase ρ) : Bool := phase.targets?.isSome

/-- The rows it has changed and not committed. -/
def locks : Phase ρ → List Nat
  | .closed targets => targets
  | .counted targets _ => targets
  | .inserted targets _ => targets
  | _ => []

def pendingRow : Phase ρ → Option ρ
  | .inserted _ row => some row
  | _ => none

end Phase

structure State (ρ : Type) (n : Nat) where
  rows : List ρ
  lastId : Nat
  phase : Fin n → Phase ρ

inductive Step (n : Nat)
  | began (call : Fin n)
  | closed (call : Fin n)
  | counted (call : Fin n)
  | inserted (call : Fin n)
  | committed (call : Fin n)
  | killed (call : Fin n)
  deriving DecidableEq

section System

variable {ρ κ : Type} [DecidableEq κ] {n : Nat} (shape : Shape ρ κ)

def liveIds (rows : List ρ) (key : κ) : List Nat :=
  (rows.filter fun row => shape.key row = key && shape.live row).map shape.id

def numbersOf (rows : List ρ) (key : κ) : List Nat :=
  (rows.filter fun row => shape.key row = key).map shape.number

/-- `MAX(number)`, or 0 where the key has no row. -/
def lastNumber (rows : List ρ) (key : κ) : Nat := ((numbersOf shape rows key).max?).getD 0

/-- The rows as the call closes them. -/
def closeRows (now : Int) (targets : List Nat) (rows : List ρ) : List ρ :=
  rows.map fun row => if shape.id row ∈ targets then shape.close now row else row

/-- The unique index has the entry. -/
def sameEntry (row other : ρ) : Bool :=
  shape.numbered && (shape.key row = shape.key other && shape.number row = shape.number other)

variable (requests : Fin n → Request shape)

/-- No other call has changed any of the rows. -/
def free (s : State ρ n) (call : Fin n) (wanted : List Nat) : Bool :=
  decide (∀ other, other ≠ call → ∀ id ∈ (s.phase other).locks, id ∉ wanted)

/-- No other call has inserted the entry and not committed it. -/
def unclaimed (s : State ρ n) (call : Fin n) (row : ρ) : Bool :=
  decide (∀ other, other ≠ call → ∀ pending ∈ (s.phase other).pendingRow, sameEntry shape pending row = false)

def State.enter (s : State ρ n) (call : Fin n) (phase : Phase ρ) : State ρ n :=
  { s with phase := Function.update s.phase call phase }

/-- A statement that has to wait is not enabled. -/
def step (s : State ρ n) : Step n → Option (State ρ n)
  | .began call =>
      match s.phase call with
      | .idle => some (s.enter call (.closing (liveIds shape s.rows (requests call).key)))
      | _ => none
  | .closed call =>
      match s.phase call with
      | .closing targets =>
          if free s call targets then
            let still := targets.filter (· ∈ liveIds shape s.rows (requests call).key)
            some (s.enter call (if shape.numbered then .closed still else .counted still 0))
          else none
      | _ => none
  | .counted call =>
      match s.phase call with
      | .closed targets => some (s.enter call (.counted targets (lastNumber shape s.rows (requests call).key)))
      | _ => none
  | .inserted call =>
      match s.phase call with
      | .counted targets last =>
          let row := (requests call).make (s.lastId + 1) last
          let used := { s with lastId := s.lastId + 1 }
          if s.rows.any fun other => sameEntry shape other row then some (used.enter call .failed)
          else if unclaimed shape s call row then some (used.enter call (.inserted targets row))
          else none
      | _ => none
  | .committed call =>
      match s.phase call with
      | .inserted targets row =>
          some ({ s with rows := closeRows shape (requests call).now targets s.rows ++ [row] }.enter call .committed)
      | _ => none
  | .killed call => if (s.phase call).isOpen then some (s.enter call .killed) else none

def State.start (rows : List ρ) (lastId : Nat) : State ρ n := ⟨rows, lastId, fun _ => .idle⟩

/-- One live row a key at most, and a key's numbers one after another from 1. -/
structure Whole (rows : List ρ) : Prop where
  one : ∀ key, (liveIds shape rows key).length ≤ 1
  numbers : shape.numbered = true → ∀ key, numbersOf shape rows key = List.range' 1 (numbersOf shape rows key).length

def Alone (s : State ρ n) (label : Step n) (_ : State ρ n) : Prop :=
  ∀ call, label = .began call → ∀ other, other ≠ call → (s.phase other).isOpen = true →
    (requests other).key ≠ (requests call).key

instance (s next : State ρ n) (label : Step n) : Decidable (Alone shape requests s label next) := by
  unfold Alone
  infer_instance

end System

section Rows

variable {ρ κ : Type} [DecidableEq κ] {shape : Shape ρ κ} {rows : List ρ} {key : κ} {now : Int} {targets : List Nat}

theorem mem_liveIds {id : Nat} : id ∈ liveIds shape rows key ↔
    ∃ row ∈ rows, shape.key row = key ∧ shape.live row = true ∧ shape.id row = id := by
  unfold liveIds
  rw [List.mem_map]
  constructor
  · rintro ⟨row, member, same⟩
    obtain ⟨here, kept⟩ := List.mem_filter.mp member
    rw [Bool.and_eq_true, decide_eq_true_eq] at kept
    exact ⟨row, here, kept.1, kept.2, same⟩
  · rintro ⟨row, here, own, live, same⟩
    refine ⟨row, List.mem_filter.mpr ⟨here, ?_⟩, same⟩
    rw [Bool.and_eq_true, decide_eq_true_eq]
    exact ⟨own, live⟩

/-- Closing rows changes no number. -/
theorem numbersOf_closeRows : numbersOf shape (closeRows shape now targets rows) key = numbersOf shape rows key := by
  induction rows with
  | nil => rfl
  | cons row rest ih =>
    have key_kept : shape.key (if shape.id row ∈ targets then shape.close now row else row) = shape.key row := by
      split
      · exact shape.close_key now row
      · rfl
    have number_kept : shape.number (if shape.id row ∈ targets then shape.close now row else row) = shape.number row := by
      split
      · exact shape.close_number now row
      · rfl
    unfold numbersOf closeRows at ih ⊢
    rw [List.map_cons, List.filter_cons, List.filter_cons, key_kept]
    split
    · rw [List.map_cons, List.map_cons, number_kept, ih]
    · exact ih

/-- Closing rows leaves no more of them live. -/
theorem liveIds_closeRows : (liveIds shape (closeRows shape now targets rows) key).Sublist (liveIds shape rows key) := by
  induction rows with
  | nil => exact List.Sublist.refl _
  | cons row rest ih =>
    unfold liveIds closeRows at ih ⊢
    rw [List.map_cons, List.filter_cons, List.filter_cons]
    by_cases target : shape.id row ∈ targets
    · rw [if_pos target, shape.close_live, Bool.and_false, if_neg Bool.false_ne_true]
      split
      · exact ih.trans ((List.sublist_cons_self _ _).map _)
      · exact ih
    · rw [if_neg target]
      split
      · exact ih.cons_cons _
      · exact ih

/-- Closing every live row of the key leaves none. -/
theorem liveIds_closeRows_eq_nil (covers : ∀ row ∈ rows, shape.key row = key → shape.live row = true →
    shape.id row ∈ targets) : liveIds shape (closeRows shape now targets rows) key = [] := by
  rw [List.eq_nil_iff_forall_not_mem]
  intro id member
  obtain ⟨row, here, own, live, -⟩ := mem_liveIds.mp member
  obtain ⟨before, there, rfl⟩ := List.mem_map.mp here
  by_cases target : shape.id before ∈ targets
  · rw [if_pos target, shape.close_live] at live
    cases live
  · rw [if_neg target] at own live
    exact target (covers before there own live)

theorem liveIds_concat (row : ρ) : liveIds shape (rows ++ [row]) key =
    liveIds shape rows key ++ if shape.key row = key ∧ shape.live row = true then [shape.id row] else [] := by
  unfold liveIds
  rw [List.filter_append, List.map_append]
  congr 1
  rw [List.filter_singleton]
  by_cases own : shape.key row = key ∧ shape.live row = true
  · rw [if_pos own]
    simp [own.1, own.2]
  · rw [if_neg own]
    have dropped : (decide (shape.key row = key) && shape.live row) = false := by
      rw [Bool.eq_false_iff]
      intro kept
      rw [Bool.and_eq_true, decide_eq_true_eq] at kept
      exact own kept
    rw [dropped]
    rfl

theorem numbersOf_concat (row : ρ) : numbersOf shape (rows ++ [row]) key =
    numbersOf shape rows key ++ if shape.key row = key then [shape.number row] else [] := by
  unfold numbersOf
  rw [List.filter_append, List.map_append]
  congr 1
  by_cases own : shape.key row = key
  · simp [own]
  · simp [own]

/-- The last of the numbers from 1 on is how many there are. -/
theorem lastNumber_eq {count : Nat} (numbers : numbersOf shape rows key = List.range' 1 count) :
    lastNumber shape rows key = count := by
  unfold lastNumber
  rw [numbers]
  cases count with
  | zero => rfl
  | succ more =>
    have largest : (List.range' 1 (more + 1)).max? = some (more + 1) := by
      refine List.max?_eq_some_iff.mpr ⟨?_, ?_⟩
      · rw [List.mem_range'_1]
        omega
      · intro number member
        rw [List.mem_range'_1] at member
        omega
    rw [largest]
    rfl

end Rows

/-! ## Calls on one key that do not overlap -/

section Runs

variable {ρ κ : Type} [DecidableEq κ] {n : Nat} {shape : Shape ρ κ} {requests : Fin n → Request shape}
  {s next : State ρ n} {label : Step n} {call : Fin n}

/-- What an open call knows of its key's rows is still so. -/
structure Fits (shape : Shape ρ κ) (request : Request shape) (rows : List ρ) (phase : Phase ρ) : Prop where
  covers : ∀ targets, phase.targets? = some targets → ∀ row ∈ rows, shape.key row = request.key →
    shape.live row = true → shape.id row ∈ targets
  counts : ∀ targets last, phase = .counted targets last → shape.numbered = true →
    last = lastNumber shape rows request.key
  makes : ∀ targets row, phase = .inserted targets row → ∃ id last, row = request.make id last ∧
    (shape.numbered = true → last = lastNumber shape rows request.key)
  ends : phase ≠ .failed

structure Inv (shape : Shape ρ κ) (requests : Fin n → Request shape) (s : State ρ n) : Prop where
  whole : Whole shape s.rows
  alone : ∀ first second, (s.phase first).isOpen = true → (s.phase second).isOpen = true →
    (requests first).key = (requests second).key → first = second
  fits : ∀ call, Fits shape (requests call) s.rows (s.phase call)

variable {rows : List ρ} {phase : Phase ρ}
variable {request : Request shape} {lastId : Nat} {targets : List Nat} {row : ρ}

theorem fits_closed (closed : phase.targets? = none) (ends : phase ≠ .failed) :
    Fits shape request rows phase where
  covers targets found := by
    rw [closed] at found
    cases found
  counts targets last same := by
    rw [same] at closed
    cases closed
  makes targets row same := by
    rw [same] at closed
    cases closed
  ends := ends

theorem inv_start (whole : Whole shape rows) :
    Inv shape requests (State.start rows lastId) where
  whole := whole
  alone first _ opened := by cases opened
  fits _ := fits_closed rfl nofun

/-- A call that goes on by itself keeps the invariant. -/
theorem inv_enter (inv : Inv shape requests s) (lastId : Nat)
    (alone : phase.isOpen = true → ∀ other, other ≠ call → (s.phase other).isOpen = true →
      (requests other).key ≠ (requests call).key) (fits : Fits shape (requests call) s.rows phase) :
    Inv shape requests ({ s with lastId := lastId }.enter call phase) := by
  unfold State.enter
  refine ⟨inv.whole, ?_, ?_⟩
  · intro first second here there same
    dsimp only at here there
    by_cases first_call : first = call
    · by_cases second_call : second = call
      · rw [first_call, second_call]
      · rw [first_call, Function.update_self] at here
        rw [Function.update_of_ne second_call] at there
        rw [first_call] at same
        exact absurd same.symm (alone here second second_call there)
    · rw [Function.update_of_ne first_call] at here
      by_cases second_call : second = call
      · rw [second_call, Function.update_self] at there
        rw [second_call] at same
        exact absurd same (alone there first first_call here)
      · rw [Function.update_of_ne second_call] at there
        exact inv.alone first second here there same
  · intro other
    dsimp only
    by_cases same : other = call
    · rw [same, Function.update_self]
      exact fits
    · rw [Function.update_of_ne same]
      exact inv.fits other

/-- A call that was open already is still alone. -/
theorem alone_of_open (inv : Inv shape requests s) (opened : (s.phase call).isOpen = true) :
    ∀ other, other ≠ call → (s.phase other).isOpen = true → (requests other).key ≠ (requests call).key :=
  fun other apart also same => apart (inv.alone other call also opened same)

/-- The commit of a call leaves its new row the live one, with the next number. -/
theorem whole_commit (inv : Inv shape requests s) (at_end : s.phase call = .inserted targets row) :
    Whole shape (closeRows shape (requests call).now targets s.rows ++ [row]) := by
  have known := inv.fits call
  rw [at_end] at known
  obtain ⟨id, last, made, counted⟩ := known.makes targets row rfl
  have key : shape.key row = (requests call).key := by rw [made, (requests call).make_key]
  constructor
  · intro other
    rw [liveIds_concat]
    by_cases same : (requests call).key = other
    · subst same
      rw [liveIds_closeRows_eq_nil (known.covers targets rfl), List.nil_append]
      split <;> simp
    · have apart : ¬(shape.key row = other ∧ shape.live row = true) := fun own => same (key.symm.trans own.1)
      rw [if_neg apart, List.append_nil]
      exact liveIds_closeRows.length_le.trans (inv.whole.one other)
  · intro numbered other
    have before := inv.whole.numbers numbered other
    rw [numbersOf_concat, numbersOf_closeRows]
    by_cases same : (requests call).key = other
    · subst same
      rw [if_pos key]
      have next_number : shape.number row = (numbersOf shape s.rows (requests call).key).length + 1 := by
        rw [made, (requests call).make_number numbered, counted numbered, lastNumber_eq before]
      rw [List.length_append, List.length_singleton, List.range'_1_concat, ← before, next_number, Nat.add_comm 1]
    · have apart : shape.key row ≠ other := fun own => same (key.symm.trans own)
      rw [if_neg apart, List.append_nil]
      exact before

theorem fits_commit {other : Request shape} (key : shape.key row = request.key)
    (apart : phase.isOpen = true → other.key ≠ request.key) (fits : Fits shape other rows phase) :
    Fits shape other (closeRows shape request.now targets rows ++ [row]) phase := by
  cases found : phase.targets? with
  | none => exact fits_closed found fits.ends
  | some held =>
    have different : other.key ≠ request.key := apart (by unfold Phase.isOpen; rw [found]; rfl)
    have last_same : lastNumber shape (closeRows shape request.now targets rows ++ [row]) other.key =
        lastNumber shape rows other.key := by
      have elsewhere : shape.key row ≠ other.key := fun own => different (own.symm.trans key)
      unfold lastNumber
      rw [numbersOf_concat, if_neg elsewhere, List.append_nil, numbersOf_closeRows]
    refine ⟨?_, ?_, ?_, fits.ends⟩
    · intro targets' here after member own live
      rcases List.mem_append.mp member with old | new
      · obtain ⟨before, there, rfl⟩ := List.mem_map.mp old
        by_cases target : shape.id before ∈ targets
        · rw [if_pos target, shape.close_live] at live
          cases live
        · rw [if_neg target] at own live ⊢
          exact fits.covers targets' here before there own live
      · rw [List.mem_singleton.mp new] at own
        exact absurd (own.symm.trans key) different
    · intro targets' last same numbered
      rw [last_same]
      exact fits.counts targets' last same numbered
    · intro targets' inserted same
      rw [last_same]
      exact fits.makes targets' inserted same

/-- One step keeps it. -/
theorem inv_step (enabled : step shape requests s label = some next) (alone : Alone shape requests s label next)
    (inv : Inv shape requests s) : Inv shape requests next := by
  unfold step at enabled
  cases label with
  | began call =>
    dsimp only at enabled
    split at enabled
    · cases enabled
      refine inv_enter inv s.lastId (fun _ => alone call rfl) ⟨?_, nofun, nofun, nofun⟩
      intro targets found row member own live
      cases found
      exact mem_liveIds.mpr ⟨row, member, own, live, rfl⟩
    · cases enabled
  | closed call =>
    dsimp only at enabled
    split at enabled
    · rename_i targets closing
      have known := inv.fits call
      rw [closing] at known
      have still : ∀ row ∈ s.rows, shape.key row = (requests call).key → shape.live row = true →
          shape.id row ∈ targets.filter (· ∈ liveIds shape s.rows (requests call).key) := by
        intro row member own live
        refine List.mem_filter.mpr ⟨known.covers targets rfl row member own live, ?_⟩
        exact decide_eq_true (mem_liveIds.mpr ⟨row, member, own, live, rfl⟩)
      have opened : (s.phase call).isOpen = true := by
        rw [closing]
        rfl
      split at enabled
      · cases enabled
        refine inv_enter inv s.lastId (fun _ => alone_of_open inv opened) ?_
        split
        · refine ⟨?_, nofun, nofun, nofun⟩
          intro kept found
          cases found
          exact still
        · rename_i unnumbered
          refine ⟨?_, ?_, nofun, nofun⟩
          · intro kept found
            cases found
            exact still
          · intro kept last _ numbered
            exact absurd numbered unnumbered
      · cases enabled
    · cases enabled
  | counted call =>
    dsimp only at enabled
    split at enabled
    · rename_i targets closed
      have known := inv.fits call
      rw [closed] at known
      have opened : (s.phase call).isOpen = true := by
        rw [closed]
        rfl
      cases enabled
      refine inv_enter inv s.lastId (fun _ => alone_of_open inv opened) ⟨?_, ?_, nofun, nofun⟩
      · intro kept found
        cases found
        exact known.covers targets rfl
      · intro kept last same _
        cases same
        rfl
    · cases enabled
  | inserted call =>
    dsimp only at enabled
    split at enabled
    · rename_i targets last counted
      have known := inv.fits call
      rw [counted] at known
      have opened : (s.phase call).isOpen = true := by
        rw [counted]
        rfl
      split at enabled
      · rename_i taken
        obtain ⟨other, member, entry⟩ := List.any_eq_true.mp taken
        unfold sameEntry at entry
        rw [Bool.and_eq_true, Bool.and_eq_true, decide_eq_true_eq, decide_eq_true_eq] at entry
        obtain ⟨numbered, own, number⟩ := entry
        -- the numbers go up to the last one, so the next one is free
        have numbers := inv.whole.numbers numbered (requests call).key
        have among : shape.number other ∈ numbersOf shape s.rows (requests call).key := by
          refine List.mem_map_of_mem (List.mem_filter.mpr ⟨member, ?_⟩)
          rw [decide_eq_true_eq, own, (requests call).make_key]
        rw [numbers, List.mem_range'_1] at among
        have next_number := (requests call).make_number numbered (s.lastId + 1) last
        have last_number := known.counts targets last rfl numbered
        rw [lastNumber_eq numbers] at last_number
        omega
      · split at enabled
        · cases enabled
          refine inv_enter inv (s.lastId + 1) (fun _ => alone_of_open inv opened) ⟨?_, nofun, ?_, nofun⟩
          · intro kept found
            cases found
            exact known.covers targets rfl
          · intro kept row same
            cases same
            exact ⟨s.lastId + 1, last, rfl, known.counts targets last rfl⟩
        · cases enabled
    · cases enabled
  | committed call =>
    dsimp only at enabled
    split at enabled
    · rename_i targets row at_end
      have opened : (s.phase call).isOpen = true := by
        rw [at_end]
        rfl
      have known := inv.fits call
      rw [at_end] at known
      obtain ⟨id, last, made, -⟩ := known.makes targets row rfl
      have key : shape.key row = (requests call).key := by rw [made, (requests call).make_key]
      cases enabled
      have entered : Inv shape requests ({ s with lastId := s.lastId }.enter call .committed) := by
        refine inv_enter inv s.lastId ?_ (fits_closed rfl nofun)
        intro ended
        cases ended
      refine ⟨whole_commit inv at_end, entered.alone, ?_⟩
      · intro other
        unfold State.enter
        dsimp only
        by_cases same : other = call
        · rw [same, Function.update_self]
          exact fits_closed rfl nofun
        · rw [Function.update_of_ne same]
          exact fits_commit key (alone_of_open inv opened other same) (inv.fits other)
    · cases enabled
  | killed call =>
    dsimp only at enabled
    split at enabled
    · cases enabled
      exact inv_enter inv s.lastId (fun opened => by cases opened) (fits_closed rfl nofun)
    · cases enabled

/-- A run whose calls on one key do not overlap leaves one live row a key and no call failed. -/
theorem whole_of_run {labels : List (Step n)} {final : State ρ n} (whole : Whole shape rows)
    (alone : Every (step shape requests) (Alone shape requests) (State.start rows lastId) labels)
    (run : exec (step shape requests) (State.start rows lastId) labels = some final) :
    Whole shape final.rows ∧ ∀ call, final.phase call ≠ .failed := by
  have inv := exec_invariant_of_every (fun _ _ _ => inv_step) alone (inv_start whole) run
  exact ⟨inv.whole, fun call => (inv.fits call).ends⟩

end Runs

end DbaBrain.Foundation.ReadCommitted
