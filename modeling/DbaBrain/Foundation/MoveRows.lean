import DbaBrain.Foundation.Execution

/-!
# Moving rows by two statements

A call counts the rows it selects, copies the ones it selects then to an
archive, and deletes the ones it selects last.  Each statement sees what is
committed when it starts; an archived id another call has not committed yet and
a row it has deleted are waited for.  Rows are inserted beside the calls.  The
rows ever committed are kept in a list no statement reads.
-/

namespace DbaBrain.Foundation.MoveRows

open Execution

/-- Rows with ids, made from what is inserted. -/
structure Shape (ρ ι : Type) where
  id : ρ → Nat
  make : Nat → ι → ρ
  make_id : ∀ n item, id (make n item) = n

/-- The rows a call selects, and the stamp it puts on their copies. -/
structure Request (ρ τ : Type) where
  selects : ρ → Bool
  stamp : τ

/-- How far a call has come. -/
inductive Phase (ρ : Type)
  | idle
  /-- It has found rows to move. -/
  | counted
  /-- Its copying statement has read its rows. -/
  | copying (rows : List ρ)
  | copied (rows : List ρ)
  /-- Its deleting statement has found the ids of its rows. -/
  | deleting (rows : List ρ) (targets : List Nat)
  | deleted (rows : List ρ) (removed : List Nat)
  | ended
  | failed
  | killed

namespace Phase

variable {ρ : Type}

def reads : Phase ρ → List ρ
  | .copying rows => rows
  | .copied rows => rows
  | .deleting rows _ => rows
  | .deleted rows _ => rows
  | _ => []

/-- The rows it has copied and not committed. -/
def copies : Phase ρ → List ρ
  | .copied rows => rows
  | .deleting rows _ => rows
  | .deleted rows _ => rows
  | _ => []

/-- The ids of the rows it has deleted and not committed. -/
def removes : Phase ρ → List Nat
  | .deleted _ removed => removed
  | _ => []

def isOpen : Phase ρ → Bool
  | .idle => false
  | .ended => false
  | .failed => false
  | .killed => false
  | _ => true

theorem mem_reads_of_mem_copies {phase : Phase ρ} {row : ρ} (member : row ∈ phase.copies) : row ∈ phase.reads := by
  cases phase with
  | copied rows => exact member
  | deleting rows targets => exact member
  | deleted rows removed => exact member
  | idle => cases member
  | counted => cases member
  | copying rows => cases member
  | ended => cases member
  | failed => cases member
  | killed => cases member

end Phase

structure State (ρ τ : Type) (n : Nat) where
  live : List ρ
  archive : List (ρ × τ)
  lastId : Nat
  ever : List ρ
  phase : Fin n → Phase ρ
  /-- What each writer has inserted and not committed. -/
  pending : Nat → List ρ

inductive Step (ι : Type) (n : Nat)
  | counted (call : Fin n)
  | copyStarted (call : Fin n)
  | copied (call : Fin n)
  | deleteStarted (call : Fin n)
  | deleted (call : Fin n)
  | committed (call : Fin n)
  | killed (call : Fin n)
  | inserted (writer : Nat) (items : List ι)
  | insertCommitted (writer : Nat)
  | insertKilled (writer : Nat)

def State.start (ρ τ : Type) (n : Nat) : State ρ τ n := ⟨[], [], 0, [], fun _ => .idle, fun _ => []⟩

def State.enter {ρ τ : Type} {n : Nat} (s : State ρ τ n) (call : Fin n) (phase : Phase ρ) : State ρ τ n :=
  { s with phase := Function.update s.phase call phase }

section System

variable {ρ τ ι : Type} {n : Nat} (shape : Shape ρ ι)

/-- The rows made of the items, with the ids after the last one. -/
def makeRows (last : Nat) (items : List ι) : List ρ := items.mapIdx fun index item => shape.make (last + 1 + index) item

def archived (archive : List (ρ × τ)) (rows : List ρ) : Bool :=
  rows.any fun row => archive.any fun entry => shape.id entry.1 = shape.id row

def sharesId (rows others : List ρ) : Bool := rows.any fun row => others.any fun other => shape.id other = shape.id row

def step (requests : Fin n → Option (Request ρ τ)) (s : State ρ τ n) : Step ι n → Option (State ρ τ n)
  | .counted call =>
      match s.phase call, requests call with
      | .idle, some request => some (s.enter call (if s.live.any request.selects then .counted else .ended))
      | _, _ => none
  | .copyStarted call =>
      match s.phase call, requests call with
      | .counted, some request => some (s.enter call (.copying (s.live.filter request.selects)))
      | _, _ => none
  | .copied call =>
      match s.phase call with
      | .copying rows =>
          if archived shape s.archive rows then some (s.enter call .failed)
          else if ∃ other, other ≠ call ∧ sharesId shape rows (s.phase other).copies = true then none
          else some (s.enter call (.copied rows))
      | _ => none
  | .deleteStarted call =>
      match s.phase call, requests call with
      | .copied rows, some request => some (s.enter call (.deleting rows ((s.live.filter request.selects).map shape.id)))
      | _, _ => none
  | .deleted call =>
      match s.phase call with
      | .deleting rows targets =>
          if ∃ other, other ≠ call ∧ ∃ target ∈ targets, target ∈ (s.phase other).removes then none
          else some (s.enter call (.deleted rows (targets.filter fun target => target ∈ s.live.map shape.id)))
      | _ => none
  | .committed call =>
      match s.phase call, requests call with
      | .deleted rows removed, some request =>
          some
            { s.enter call .ended with
              live := s.live.filter fun row => shape.id row ∉ removed
              archive := s.archive ++ rows.map fun row => (row, request.stamp) }
      | _, _ => none
  | .killed call => if (s.phase call).isOpen then some (s.enter call .killed) else none
  | .inserted writer items =>
      if s.pending writer = [] then
        some { s with
          lastId := s.lastId + items.length
          pending := Function.update s.pending writer (makeRows shape s.lastId items) }
      else none
  | .insertCommitted writer =>
      some { s with
        live := s.live ++ s.pending writer
        ever := s.ever ++ s.pending writer
        pending := Function.update s.pending writer [] }
  | .insertKilled writer => some { s with pending := Function.update s.pending writer [] }

/-- The live rows and the archived ones are together the rows ever committed, each of them once. -/
def Kept (s : State ρ τ n) : Prop := (s.live ++ s.archive.map Prod.fst).Perm s.ever

def DeletesCopied (s : State ρ τ n) (label : Step ι n) (_ : State ρ τ n) : Prop :=
  ∀ call, label = .committed call → ∀ rows removed, s.phase call = .deleted rows removed →
    ∀ id ∈ removed, id ∈ rows.map shape.id

end System

/-! ## What every run keeps -/

section Invariant

variable {ρ τ ι : Type} {n : Nat} (shape : Shape ρ ι)

/-- What a call knows of the tables. -/
structure Fits (request : Option (Request ρ τ)) (live : List ρ) (archive : List (ρ × τ)) (ever : List ρ)
    (phase : Phase ρ) : Prop where
  known : ∀ row ∈ phase.reads, row ∈ ever
  selected : ∀ asked, request = some asked → ∀ row ∈ phase.reads, asked.selects row = true
  once : (phase.reads.map shape.id).Nodup
  fresh : ∀ row ∈ phase.copies, ∀ entry ∈ archive, shape.id entry.1 ≠ shape.id row
  targets : ∀ rows targets, phase = .deleting rows targets → ∀ row ∈ rows, row ∈ live → shape.id row ∈ targets
  removed : ∀ rows removed, phase = .deleted rows removed → ∀ row ∈ rows, row ∈ live → shape.id row ∈ removed
  present : ∀ id ∈ phase.removes, ∃ row ∈ live, shape.id row = id

structure Inv (requests : Fin n → Option (Request ρ τ)) (s : State ρ τ n) : Prop where
  ids : (s.ever.map shape.id).Nodup
  bounded : ∀ row ∈ s.ever, shape.id row ≤ s.lastId
  pendingOnce : ∀ writer, ((s.pending writer).map shape.id).Nodup
  pendingNew : ∀ writer, ∀ row ∈ s.pending writer, shape.id row ≤ s.lastId ∧ shape.id row ∉ s.ever.map shape.id
  pendingApart : ∀ writer other, other ≠ writer → ∀ row ∈ s.pending writer, shape.id row ∉ (s.pending other).map shape.id
  live : s.live.Sublist s.ever
  archive : ∀ entry ∈ s.archive, entry.1 ∈ s.ever
  archiveOnce : (s.archive.map fun entry => shape.id entry.1).Nodup
  apart : ∀ entry ∈ s.archive, entry.1 ∉ s.live
  fits : ∀ call, Fits shape (requests call) s.live s.archive s.ever (s.phase call)
  copiesApart : ∀ call other, other ≠ call → sharesId shape (s.phase call).copies (s.phase other).copies = false
  removesApart : ∀ call other, other ≠ call → ∀ id ∈ (s.phase call).removes, id ∉ (s.phase other).removes

variable {shape} {s next : State ρ τ n} {call : Fin n} {phase : Phase ρ} {label : Step ι n}
  {requests : Fin n → Option (Request ρ τ)} {request : Option (Request ρ τ)} {live : List ρ} {archive : List (ρ × τ)} {ever rows others : List ρ}

theorem sharesId_eq_false_iff :
    sharesId shape rows others = false ↔ ∀ row ∈ rows, ∀ other ∈ others, shape.id other ≠ shape.id row := by
  unfold sharesId
  simp [List.any_eq_false]

theorem sharesId_comm (rows others : List ρ) : sharesId shape rows others = sharesId shape others rows := by
  rw [Bool.eq_iff_iff]
  unfold sharesId
  simp only [List.any_eq_true, decide_eq_true_eq]
  constructor
  · rintro ⟨row, member, other, among, same⟩
    exact ⟨other, among, row, member, same.symm⟩
  · rintro ⟨row, member, other, among, same⟩
    exact ⟨other, among, row, member, same.symm⟩

theorem archived_eq_false_iff :
    archived shape archive rows = false ↔ ∀ row ∈ rows, ∀ entry ∈ archive, shape.id entry.1 ≠ shape.id row := by
  unfold archived
  simp [List.any_eq_false]

variable {row : ρ}

theorem eq_of_id_eq (once : (rows.map shape.id).Nodup) {other : ρ} (here : row ∈ rows) (there : other ∈ rows)
    (same : shape.id row = shape.id other) : row = other :=
  List.inj_on_of_nodup_map once here there same

/-- A call that holds nothing. -/
theorem fits_of_reads_eq_nil (nothing : phase.reads = []) (removes : phase.removes = []) :
    Fits shape request live archive ever phase where
  known row member := by
    rw [nothing] at member
    cases member
  selected asked _ row member := by
    rw [nothing] at member
    cases member
  once := by
    rw [nothing]
    exact List.nodup_nil
  fresh row member := by
    have read := Phase.mem_reads_of_mem_copies member
    rw [nothing] at read
    cases read
  targets rows targets same row member := by
    rw [same] at nothing
    rw [show rows = [] from nothing] at member
    cases member
  removed rows removed same row member := by
    rw [same] at nothing
    rw [show rows = [] from nothing] at member
    cases member
  present id member := by
    rw [removes] at member
    cases member

theorem inv_start : Inv shape requests (State.start ρ τ n) where
  ids := List.nodup_nil
  bounded row member := by cases member
  pendingOnce writer := List.nodup_nil
  pendingNew writer row member := by cases member
  pendingApart writer other apart row member := by cases member
  live := List.Sublist.refl _
  archive entry member := by cases member
  archiveOnce := List.nodup_nil
  apart entry member := by cases member
  fits call := fits_of_reads_eq_nil rfl rfl
  copiesApart call other apart := rfl
  removesApart call other apart id member := by cases member

/-- A call that goes on by itself keeps the invariant. -/
theorem inv_enter (inv : Inv shape requests s) (fits : Fits shape (requests call) s.live s.archive s.ever phase)
    (copies : ∀ other, other ≠ call → sharesId shape phase.copies (s.phase other).copies = false)
    (removes : ∀ other, other ≠ call → ∀ id ∈ phase.removes, id ∉ (s.phase other).removes) :
    Inv shape requests (s.enter call phase) where
  ids := inv.ids
  bounded := inv.bounded
  pendingOnce := inv.pendingOnce
  pendingNew := inv.pendingNew
  pendingApart := inv.pendingApart
  live := inv.live
  archive := inv.archive
  archiveOnce := inv.archiveOnce
  apart := inv.apart
  fits other := by
    unfold State.enter
    dsimp only
    by_cases same : other = call
    · rw [same, Function.update_self]
      exact fits
    · rw [Function.update_of_ne same]
      exact inv.fits other
  copiesApart first second apart := by
    unfold State.enter
    dsimp only
    by_cases here : first = call
    · rw [here, Function.update_self, Function.update_of_ne (here ▸ apart)]
      exact copies second (here ▸ apart)
    · rw [Function.update_of_ne here]
      by_cases there : second = call
      · rw [there, Function.update_self, sharesId_comm]
        exact copies first here
      · rw [Function.update_of_ne there]
        exact inv.copiesApart first second apart
  removesApart first second apart := by
    unfold State.enter
    dsimp only
    by_cases here : first = call
    · rw [here, Function.update_self, Function.update_of_ne (here ▸ apart)]
      exact removes second (here ▸ apart)
    · rw [Function.update_of_ne here]
      by_cases there : second = call
      · rw [there, Function.update_self]
        intro id member among
        exact removes first here id among member
      · rw [Function.update_of_ne there]
        exact inv.removesApart first second apart

/-- A call that holds what it held. -/
theorem inv_enter_of_same (inv : Inv shape requests s) (fits : Fits shape (requests call) s.live s.archive s.ever phase)
    (copies : phase.copies = (s.phase call).copies ∨ phase.copies = [])
    (removes : phase.removes = (s.phase call).removes ∨ phase.removes = []) : Inv shape requests (s.enter call phase) := by
  refine inv_enter inv fits ?_ ?_
  · intro other apart
    rcases copies with same | nothing
    · rw [same]
      exact inv.copiesApart call other apart
    · rw [nothing]
      rfl
  · intro other apart
    rcases removes with same | nothing
    · rw [same]
      exact inv.removesApart call other apart
    · rw [nothing]
      intro id member
      cases member

theorem Inv.mem_ever (inv : Inv shape requests s) (member : row ∈ s.live) : row ∈ s.ever := inv.live.mem member

theorem Inv.live_once (inv : Inv shape requests s) : (s.live.map shape.id).Nodup := inv.ids.sublist (inv.live.map shape.id)

theorem mem_deletedIds {targets : List Nat} {id : Nat} :
    id ∈ targets.filter (fun target => target ∈ live.map shape.id) ↔ id ∈ targets ∧ ∃ row ∈ live, shape.id row = id := by
  rw [List.mem_filter, decide_eq_true_eq, List.mem_map]

/-- The tables after the commit of a call. -/
theorem inv_commit (inv : Inv shape requests s) {removed : List Nat} {request : Request ρ τ}
    (at_end : s.phase call = .deleted rows removed) :
    Inv shape requests
      { s.enter call .ended with
        live := s.live.filter fun row => shape.id row ∉ removed
        archive := s.archive ++ rows.map fun row => (row, request.stamp) } := by
  have mine := inv.fits call
  rw [at_end] at mine
  have left : Inv shape requests (s.enter call .ended) :=
    inv_enter_of_same inv (fits_of_reads_eq_nil rfl rfl) (Or.inr rfl) (Or.inr rfl)
  have shrinks : (s.live.filter fun row => shape.id row ∉ removed).Sublist s.live := List.filter_sublist
  have split : ∀ entry ∈ s.archive ++ rows.map (fun row => (row, request.stamp)), entry ∈ s.archive ∨ entry.1 ∈ rows := by
    intro entry member
    rcases List.mem_append.mp member with old | new
    · exact Or.inl old
    · obtain ⟨row, among, rfl⟩ := List.mem_map.mp new
      exact Or.inr among
  refine ⟨inv.ids, inv.bounded, inv.pendingOnce, inv.pendingNew, inv.pendingApart, shrinks.trans inv.live, ?_, ?_, ?_, ?_,
    left.copiesApart, left.removesApart⟩
  · intro entry member
    rcases split entry member with old | new
    · exact inv.archive entry old
    · exact mine.known entry.1 new
  · rw [List.map_append, List.map_map]
    refine List.Nodup.append inv.archiveOnce mine.once ?_
    intro id here there
    obtain ⟨entry, among, rfl⟩ := List.mem_map.mp here
    obtain ⟨row, member, same⟩ := List.mem_map.mp there
    exact mine.fresh row member entry among same.symm
  · intro entry member stays
    obtain ⟨present, kept⟩ := List.mem_filter.mp stays
    rcases split entry member with old | new
    · exact inv.apart entry old present
    · exact of_decide_eq_true kept (mine.removed rows removed rfl entry.1 new present)
  · intro other
    have before := left.fits other
    refine ⟨before.known, before.selected, before.once, ?_, ?_, ?_, ?_⟩
    · intro row member entry among
      rcases split entry among with old | new
      · exact before.fresh row member entry old
      · by_cases same : other = call
        · unfold State.enter at member
          dsimp only at member
          rw [same, Function.update_self] at member
          cases member
        · unfold State.enter at member
          dsimp only at member
          rw [Function.update_of_ne same] at member
          have apart := inv.copiesApart other call (Ne.symm same)
          rw [at_end] at apart
          exact sharesId_eq_false_iff.mp apart row member entry.1 new
    · intro held targets same row member stays
      exact before.targets held targets same row member (shrinks.mem stays)
    · intro held ids same row member stays
      exact before.removed held ids same row member (shrinks.mem stays)
    · intro id member
      obtain ⟨row, present, same⟩ := before.present id member
      refine ⟨row, List.mem_filter.mpr ⟨present, decide_eq_true ?_⟩, same⟩
      rw [same]
      by_cases own : other = call
      · unfold State.enter at member
        dsimp only at member
        rw [own, Function.update_self] at member
        cases member
      · unfold State.enter at member
        dsimp only at member
        rw [Function.update_of_ne own] at member
        have apart := inv.removesApart other call (Ne.symm own) id member
        rw [at_end] at apart
        exact apart

theorem makeRows_ids (last : Nat) (items : List ι) :
    (makeRows shape last items).map shape.id = List.range' (last + 1) items.length := by
  unfold makeRows
  refine List.ext_getElem (by simp) ?_
  intro index here there
  simp [shape.make_id]

theorem mem_makeRows_bounds {last : Nat} {items : List ι} (member : row ∈ makeRows shape last items) :
    last < shape.id row ∧ shape.id row ≤ last + items.length := by
  have among := List.mem_map_of_mem (f := shape.id) member
  rw [makeRows_ids, List.mem_range'_1] at among
  omega

theorem inv_inserted (inv : Inv shape requests s) (writer : Nat) (items : List ι) :
    Inv shape requests { s with
      lastId := s.lastId + items.length
      pending := Function.update s.pending writer (makeRows shape s.lastId items) } := by
  have old : ∀ other, ∀ row ∈ s.pending other, shape.id row ≤ s.lastId := fun other row member =>
    (inv.pendingNew other row member).1
  refine ⟨inv.ids, ?_, ?_, ?_, ?_, inv.live, inv.archive, inv.archiveOnce, inv.apart, inv.fits, inv.copiesApart,
    inv.removesApart⟩
  · intro row member
    exact (inv.bounded row member).trans (Nat.le_add_right _ _)
  · intro other
    dsimp only
    by_cases same : other = writer
    · rw [same, Function.update_self, makeRows_ids]
      exact List.nodup_range'
    · rw [Function.update_of_ne same]
      exact inv.pendingOnce other
  · intro other row member
    dsimp only at member ⊢
    by_cases same : other = writer
    · rw [same, Function.update_self] at member
      obtain ⟨above, below⟩ := mem_makeRows_bounds member
      refine ⟨below, ?_⟩
      intro known
      obtain ⟨existing, among, equal⟩ := List.mem_map.mp known
      have bound := inv.bounded existing among
      omega
    · rw [Function.update_of_ne same] at member
      obtain ⟨bound, new⟩ := inv.pendingNew other row member
      exact ⟨bound.trans (Nat.le_add_right _ _), new⟩
  · intro first second apart row member shared
    dsimp only at member shared
    obtain ⟨twin, among, equal⟩ := List.mem_map.mp shared
    by_cases here : first = writer
    · rw [here, Function.update_self] at member
      rw [Function.update_of_ne (here ▸ apart)] at among
      have above := (mem_makeRows_bounds member).1
      have below := old second twin among
      omega
    · rw [Function.update_of_ne here] at member
      by_cases there : second = writer
      · rw [there, Function.update_self] at among
        have above := (mem_makeRows_bounds among).1
        have below := old first row member
        omega
      · rw [Function.update_of_ne there] at among
        exact inv.pendingApart first second apart row member (List.mem_map.mpr ⟨twin, among, equal⟩)

theorem inv_insertKilled (inv : Inv shape requests s) (writer : Nat) :
    Inv shape requests { s with pending := Function.update s.pending writer [] } :=
  inv_inserted inv writer []

/-- A writer's commit adds rows no call has read. -/
theorem inv_insertCommitted (inv : Inv shape requests s) (writer : Nat) :
    Inv shape requests { s with
      live := s.live ++ s.pending writer
      ever := s.ever ++ s.pending writer
      pending := Function.update s.pending writer [] } := by
  have dropped := inv_insertKilled inv writer
  have new : ∀ row ∈ s.pending writer, row ∉ s.ever := fun row member known =>
    (inv.pendingNew writer row member).2 (List.mem_map_of_mem known)
  refine ⟨?_, ?_, dropped.pendingOnce, ?_, dropped.pendingApart, inv.live.append (List.Sublist.refl _), ?_,
    inv.archiveOnce, ?_, ?_, inv.copiesApart, inv.removesApart⟩
  · rw [List.map_append]
    refine List.Nodup.append inv.ids (inv.pendingOnce writer) ?_
    intro id here there
    obtain ⟨row, member, rfl⟩ := List.mem_map.mp there
    exact (inv.pendingNew writer row member).2 here
  · intro row member
    rcases List.mem_append.mp member with old | fresh
    · exact inv.bounded row old
    · exact (inv.pendingNew writer row fresh).1
  · intro other row member
    obtain ⟨bound, unknown⟩ := dropped.pendingNew other row member
    refine ⟨bound, ?_⟩
    rw [List.map_append]
    intro known
    rcases List.mem_append.mp known with old | fresh
    · exact unknown old
    · dsimp only at member
      by_cases same : other = writer
      · rw [same, Function.update_self] at member
        cases member
      · rw [Function.update_of_ne same] at member
        exact inv.pendingApart other writer (Ne.symm same) row member fresh
  · intro entry member
    exact List.mem_append_left _ (inv.archive entry member)
  · intro entry member live
    rcases List.mem_append.mp live with old | fresh
    · exact inv.apart entry member old
    · exact new entry.1 fresh (inv.archive entry member)
  · intro call
    have before := inv.fits call
    -- a row the call has read was committed before, so it is none of the new ones
    have same_live : ∀ row ∈ (s.phase call).reads, row ∈ s.live ++ s.pending writer → row ∈ s.live := by
      intro row read live
      rcases List.mem_append.mp live with old | fresh
      · exact old
      · exact absurd (before.known row read) (new row fresh)
    refine ⟨fun row read => List.mem_append_left _ (before.known row read), before.selected, before.once,
      before.fresh, ?_, ?_, ?_⟩
    · intro rows targets same row member live
      have read : row ∈ (s.phase call).reads := by
        rw [show s.phase call = .deleting rows targets from same]
        exact member
      exact before.targets rows targets same row member (same_live row read live)
    · intro rows removed same row member live
      have read : row ∈ (s.phase call).reads := by
        rw [show s.phase call = .deleted rows removed from same]
        exact member
      exact before.removed rows removed same row member (same_live row read live)
    · intro id member
      obtain ⟨row, live, same⟩ := before.present id member
      exact ⟨row, List.mem_append_left _ live, same⟩

/-- One step keeps it. -/
theorem inv_step (enabled : step shape requests s label = some next) (inv : Inv shape requests s) : Inv shape requests next := by
  unfold step at enabled
  cases label with
  | counted call =>
    dsimp only at enabled
    split at enabled
    · rename_i request idle asked
      cases enabled
      refine inv_enter_of_same inv ?_ (Or.inr ?_) (Or.inr ?_)
      · split
        · exact fits_of_reads_eq_nil rfl rfl
        · exact fits_of_reads_eq_nil rfl rfl
      · split
        · rfl
        · rfl
      · split
        · rfl
        · rfl
    · cases enabled
  | copyStarted call =>
    dsimp only at enabled
    split at enabled
    · rename_i request counted asked
      cases enabled
      refine inv_enter_of_same inv ⟨?_, ?_, ?_, nofun, nofun, nofun, nofun⟩ (Or.inr rfl) (Or.inr rfl)
      · intro row read
        exact inv.mem_ever (List.mem_filter.mp read).1
      · intro other same row read
        rw [asked] at same
        cases same
        exact (List.mem_filter.mp read).2
      · exact inv.live_once.sublist (List.filter_sublist.map shape.id)
    · cases enabled
  | copied call =>
    dsimp only at enabled
    split at enabled
    · rename_i rows copying
      have known := inv.fits call
      rw [copying] at known
      split at enabled
      · cases enabled
        exact inv_enter_of_same inv (fits_of_reads_eq_nil rfl rfl) (Or.inr rfl) (Or.inr rfl)
      · rename_i absent
        split at enabled
        · cases enabled
        · rename_i alone
          cases enabled
          have fresh := archived_eq_false_iff.mp (Bool.eq_false_iff.mpr absent)
          refine inv_enter inv ⟨known.known, known.selected, known.once, fresh, nofun, nofun, nofun⟩ ?_ nofun
          intro other apart
          exact Bool.eq_false_iff.mpr fun shares => alone ⟨other, apart, shares⟩
    · cases enabled
  | deleteStarted call =>
    dsimp only at enabled
    split at enabled
    · rename_i rows request copied asked
      have known := inv.fits call
      rw [copied] at known
      cases enabled
      refine inv_enter_of_same inv ⟨known.known, known.selected, known.once, known.fresh, ?_, nofun, nofun⟩ ?_ (Or.inr rfl)
      · intro held targets same row member present
        cases same
        exact List.mem_map_of_mem (List.mem_filter.mpr ⟨present, known.selected request asked row member⟩)
      · left
        rw [copied]
        rfl
    · cases enabled
  | deleted call =>
    dsimp only at enabled
    split at enabled
    · rename_i rows targets deleting
      have known := inv.fits call
      rw [deleting] at known
      split at enabled
      · cases enabled
      · rename_i alone
        cases enabled
        refine inv_enter inv ⟨known.known, known.selected, known.once, known.fresh, nofun, ?_, ?_⟩ ?_ ?_
        · intro held removed same row member present
          cases same
          exact mem_deletedIds.mpr ⟨known.targets rows targets rfl row member present, row, present, rfl⟩
        · intro id member
          exact (mem_deletedIds.mp member).2
        · intro other apart
          have before := inv.copiesApart call other apart
          rw [deleting] at before
          exact before
        · intro other apart id member among
          exact alone ⟨other, apart, id, (mem_deletedIds.mp member).1, among⟩
    · cases enabled
  | committed call =>
    dsimp only at enabled
    split at enabled
    · rename_i rows removed request at_end asked
      cases enabled
      exact inv_commit inv at_end
    · cases enabled
  | killed call =>
    dsimp only at enabled
    split at enabled
    · cases enabled
      exact inv_enter_of_same inv (fits_of_reads_eq_nil rfl rfl) (Or.inr rfl) (Or.inr rfl)
    · cases enabled
  | inserted writer items =>
    dsimp only at enabled
    split at enabled
    · cases enabled
      exact inv_inserted inv writer items
    · cases enabled
  | insertCommitted writer =>
    cases enabled
    exact inv_insertCommitted inv writer
  | insertKilled writer =>
    cases enabled
    exact inv_insertKilled inv writer

end Invariant

/-! ## When no row is lost -/

section Runs

variable {ρ τ ι : Type} {n : Nat} {shape : Shape ρ ι} {requests : Fin n → Option (Request ρ τ)} {s next : State ρ τ n}
  {label : Step ι n}

/-- No table has a row twice, so that none is lost is all there is to it. -/
theorem Inv.kept_iff (inv : Inv shape requests s) :
    Kept s ↔ ∀ row ∈ s.ever, row ∈ s.live ∨ ∃ entry ∈ s.archive, entry.1 = row := by
  have archive_once : (s.archive.map Prod.fst).Nodup := by
    have ids : ((s.archive.map Prod.fst).map shape.id).Nodup := by
      rw [List.map_map]
      exact inv.archiveOnce
    exact ids.of_map shape.id
  have once : (s.live ++ s.archive.map Prod.fst).Nodup := by
    refine List.Nodup.append (inv.live_once.of_map shape.id) archive_once ?_
    intro row here there
    obtain ⟨entry, member, rfl⟩ := List.mem_map.mp there
    exact inv.apart entry member here
  unfold Kept
  rw [List.perm_ext_iff_of_nodup once (inv.ids.of_map shape.id)]
  constructor
  · intro same row member
    rcases List.mem_append.mp ((same row).mpr member) with live | archived
    · exact Or.inl live
    · exact Or.inr (List.mem_map.mp archived)
  · intro covered row
    constructor
    · intro member
      rcases List.mem_append.mp member with live | archived
      · exact inv.mem_ever live
      · obtain ⟨entry, among, rfl⟩ := List.mem_map.mp archived
        exact inv.archive entry among
    · intro member
      rcases covered row member with live | archived
      · exact List.mem_append_left _ live
      · exact List.mem_append_right _ (List.mem_map.mpr archived)

theorem tables_step (enabled : step shape requests s label = some next)
    (apart : ∀ call, label ≠ .committed call) (writes : ∀ writer, label ≠ .insertCommitted writer) :
    next.live = s.live ∧ next.archive = s.archive ∧ next.ever = s.ever := by
  unfold step at enabled
  cases label with
  | committed call => exact absurd rfl (apart call)
  | insertCommitted writer => exact absurd rfl (writes writer)
  | insertKilled writer =>
    cases enabled
    exact ⟨rfl, rfl, rfl⟩
  | inserted writer items =>
    dsimp only at enabled
    split at enabled
    · cases enabled
      exact ⟨rfl, rfl, rfl⟩
    · cases enabled
  | counted call =>
    dsimp only at enabled
    split at enabled
    · cases enabled
      exact ⟨rfl, rfl, rfl⟩
    · cases enabled
  | copyStarted call =>
    dsimp only at enabled
    split at enabled
    · cases enabled
      exact ⟨rfl, rfl, rfl⟩
    · cases enabled
  | copied call =>
    dsimp only at enabled
    split at enabled
    · split at enabled
      · cases enabled
        exact ⟨rfl, rfl, rfl⟩
      · split at enabled
        · cases enabled
        · cases enabled
          exact ⟨rfl, rfl, rfl⟩
    · cases enabled
  | deleteStarted call =>
    dsimp only at enabled
    split at enabled
    · cases enabled
      exact ⟨rfl, rfl, rfl⟩
    · cases enabled
  | deleted call =>
    dsimp only at enabled
    split at enabled
    · split at enabled
      · cases enabled
      · cases enabled
        exact ⟨rfl, rfl, rfl⟩
    · cases enabled
  | killed call =>
    dsimp only at enabled
    split at enabled
    · cases enabled
      exact ⟨rfl, rfl, rfl⟩
    · cases enabled

/-- What a commit does to the tables. -/
theorem committed_cases {call : Fin n} (enabled : step shape requests s (.committed call) = some next) :
    ∃ rows removed, s.phase call = .deleted rows removed ∧ next.ever = s.ever ∧
      (∀ row, row ∈ next.live ↔ row ∈ s.live ∧ shape.id row ∉ removed) ∧
      ∀ row, (∃ entry ∈ next.archive, entry.1 = row) ↔ (∃ entry ∈ s.archive, entry.1 = row) ∨ row ∈ rows := by
  unfold step at enabled
  dsimp only at enabled
  split at enabled
  · rename_i rows removed request at_end asked
    cases enabled
    refine ⟨rows, removed, at_end, rfl, ?_, ?_⟩
    · intro row
      rw [List.mem_filter, decide_eq_true_eq]
    · intro row
      constructor
      · rintro ⟨entry, member, rfl⟩
        rcases List.mem_append.mp member with old | new
        · exact Or.inl ⟨entry, old, rfl⟩
        · obtain ⟨copy, among, rfl⟩ := List.mem_map.mp new
          exact Or.inr among
      · rintro (⟨entry, member, rfl⟩ | among)
        · exact ⟨entry, List.mem_append_left _ member, rfl⟩
        · exact ⟨(row, request.stamp), List.mem_append_right _ (List.mem_map_of_mem among), rfl⟩
  · cases enabled

theorem kept_step (enabled : step shape requests s label = some next) (inv : Inv shape requests s)
    (copied : DeletesCopied shape s label next) (kept : Kept s) : Kept next := by
  have after := inv_step enabled inv
  rw [after.kept_iff]
  rw [inv.kept_iff] at kept
  by_cases commits : ∃ call, label = .committed call
  · obtain ⟨call, rfl⟩ := commits
    obtain ⟨rows, removed, at_end, same, live, archive⟩ := committed_cases enabled
    have mine := inv.fits call
    rw [at_end] at mine
    intro row member
    rw [same] at member
    rw [live, archive]
    rcases kept row member with present | archived
    · by_cases gone : shape.id row ∈ removed
      · obtain ⟨copy, among, equal⟩ := List.mem_map.mp (copied call rfl rows removed at_end (shape.id row) gone)
        have one : copy = row := eq_of_id_eq inv.ids (mine.known copy among) member equal
        exact Or.inr (Or.inr (one ▸ among))
      · exact Or.inl ⟨present, gone⟩
    · exact Or.inr (Or.inl archived)
  · by_cases writes : ∃ writer, label = .insertCommitted writer
    · obtain ⟨writer, rfl⟩ := writes
      cases enabled
      intro row member
      rcases List.mem_append.mp member with old | new
      · exact (kept row old).imp (List.mem_append_left _) id
      · exact Or.inl (List.mem_append_right _ new)
    · obtain ⟨live, archive, ever⟩ := tables_step enabled (fun call same => commits ⟨call, same⟩)
        (fun writer same => writes ⟨writer, same⟩)
      rw [live, archive, ever]
      exact kept

/-- A commit that has deleted what it has not copied loses a row. -/
theorem deletesCopied_of_kept (enabled : step shape requests s label = some next) (inv : Inv shape requests s)
    (kept : Kept next) : DeletesCopied shape s label next := by
  rintro call rfl rows removed at_end id gone
  have after := inv_step enabled inv
  rw [after.kept_iff] at kept
  obtain ⟨rows', removed', at_end', same, live, archive⟩ := committed_cases enabled
  rw [at_end] at at_end'
  cases at_end'
  have mine := inv.fits call
  rw [at_end] at mine
  obtain ⟨row, present, rfl⟩ := mine.present id gone
  rcases kept row (same ▸ inv.mem_ever present) with stays | archived
  · exact absurd gone ((live row).mp stays).2
  · rcases (archive row).mp archived with ⟨entry, member, rfl⟩ | among
    · exact absurd present (inv.apart entry member)
    · exact List.mem_map_of_mem among

/-- No row is lost in any state of a run, exactly when every call that commits has deleted only rows it has copied. -/
theorem every_kept_iff (labels : List (Step ι n)) :
    Every (step shape requests) (fun _ _ next => Kept next) (State.start ρ τ n) labels ↔
      Every (step shape requests) (DeletesCopied shape) (State.start ρ τ n) labels := by
  constructor
  · exact Every.mono (fun _ _ _ enabled _ inv => inv_step enabled inv)
      (fun _ _ _ enabled inv kept => deletesCopied_of_kept enabled inv kept) inv_start
  · have preserved : ∀ s label next, step shape requests s label = some next → DeletesCopied shape s label next →
        Inv shape requests s ∧ Kept s → Inv shape requests next ∧ Kept next := by
      rintro s label next enabled copied ⟨inv, kept⟩
      exact ⟨inv_step enabled inv, kept_step enabled inv copied kept⟩
    refine Every.mono preserved ?_ ⟨inv_start, List.Perm.refl _⟩
    rintro s label next enabled ⟨inv, kept⟩ copied
    exact kept_step enabled inv copied kept

end Runs

end DbaBrain.Foundation.MoveRows
