import Mathlib

/-!
# Resuming a schema copy

The data phase of a schema copy pushes the rows of each table across in
batches that commit one by one, and skips a table that already holds a row.
The other phases only create what is absent, a table without rows, and change
no row that is there.
-/

namespace DbaBrain.Common.SchemaCopy

variable {τ ρ : Type*} [DecidableEq τ]

/-! ## The data phase -/

/-- `batch_size`, which a request cannot state as zero. -/
structure BatchSize where
  size : Nat
  positive : 0 < size

/-- The loop of `copy_table_data`; `allowed` is after how many committed batches it stops, `none` when it ends. -/
def copyBatches (batch : BatchSize) (allowed : Option Nat) (rows : List ρ) (target : Multiset ρ) : Multiset ρ :=
  if allowed = some 0 then target
  else if rows = [] then target
  else copyBatches batch (allowed.map Nat.pred) (rows.drop batch.size) (target + (rows.take batch.size : List ρ))
termination_by rows.length
decreasing_by
  have positive := batch.positive
  rw [List.length_drop]
  have nonempty : 0 < rows.length := List.length_pos_of_ne_nil ‹_›
  omega

def copyTableData (skipIfNotEmpty : Bool) (batch : BatchSize) (allowed : Option Nat) (rows : List ρ)
    (target : Multiset ρ) : Multiset ρ :=
  if skipIfNotEmpty = true ∧ target.card ≠ 0 then target else copyBatches batch allowed rows target

/-- How the copy of one table ends: by itself, with an error, or with the process. -/
inductive Ending
  | ends
  | fails (batches : Nat)
  | killed (batches : Nat)

/-- After how many committed batches it stopped. -/
def Ending.allowed : Ending → Option Nat
  | ends => none
  | fails batches => some batches
  | killed batches => some batches

def Ending.stopsProcess : Ending → Bool
  | killed _ => true
  | _ => false

/-- `_apply_data`: a table's error leaves the other tables to be copied, the end of the process does not. -/
def applyData (skipIfNotEmpty : Bool) (batch : BatchSize) (rows : τ → List ρ) :
    List (τ × Ending) → (τ → Multiset ρ) → τ → Multiset ρ
  | [], target => target
  | (table, ending) :: rest, target =>
      let copied := Function.update target table
        (copyTableData skipIfNotEmpty batch ending.allowed (rows table) (target table))
      if ending.stopsProcess then copied else applyData skipIfNotEmpty batch rows rest copied

/-- The tables an attempt comes to. -/
def reached : List (τ × Ending) → List (τ × Ending)
  | [] => []
  | step :: rest => if step.2.stopsProcess then [step] else step :: reached rest

/-! ## What one attempt leaves -/

section Attempts

variable {skipIfNotEmpty : Bool} {batch : BatchSize} {allowed : Option Nat} {rows : List ρ}

def committed (batch : BatchSize) (allowed : Option Nat) (rows : List ρ) : List ρ :=
  match allowed with
  | none => rows
  | some batches => rows.take (batches * batch.size)

theorem copyBatches_eq (target : Multiset ρ) :
    copyBatches batch allowed rows target = target + (committed batch allowed rows : List ρ) := by
  fun_induction copyBatches batch allowed rows target with
  | case1 rows target => simp [committed]
  | case2 allowed target running => cases allowed <;> simp [committed]
  | case3 allowed rows target running some_left ih =>
    rw [ih, add_assoc]
    congr 1
    cases allowed with
    | none => simp [committed, List.take_append_drop]
    | some batches =>
      obtain ⟨before, rfl⟩ : ∃ before, batches = before + 1 :=
        Nat.exists_eq_succ_of_ne_zero fun zero => running (congrArg some zero)
      have split : rows.take ((before + 1) * batch.size) =
          rows.take batch.size ++ (rows.drop batch.size).take (before * batch.size) := by
        rw [Nat.succ_mul, Nat.add_comm, List.take_add]
      rw [committed, split]
      rfl

theorem copyTableData_of_empty : copyTableData skipIfNotEmpty batch allowed rows 0 =
    (committed batch allowed rows : List ρ) := by
  rw [copyTableData, if_neg (by simp), copyBatches_eq, zero_add]

theorem copyTableData_of_nonempty {target : Multiset ρ} (nonempty : target ≠ 0) :
    copyTableData true batch allowed rows target = target := by
  rw [copyTableData, if_pos ⟨rfl, fun none_left => nonempty (Multiset.card_eq_zero.mp none_left)⟩]

theorem copyTableData_unskipped (target : Multiset ρ) :
    copyTableData false batch allowed rows target = target + (committed batch allowed rows : List ρ) := by
  rw [copyTableData, if_neg (by simp), copyBatches_eq]

variable {reading : τ → List ρ} {steps : List (τ × Ending)} {target : τ → Multiset ρ} {table : τ} {ending : Ending}

omit [DecidableEq τ] in
theorem reached_sublist (steps : List (τ × Ending)) : (reached steps).Sublist steps := by
  induction steps with
  | nil => exact List.Sublist.refl _
  | cons step rest ih =>
    rw [reached]
    split
    · exact List.singleton_sublist.mpr List.mem_cons_self
    · exact ih.cons_cons step

/-- A table that is not come to keeps its rows. -/
theorem applyData_unreached (unreached : table ∉ (reached steps).map Prod.fst) :
    applyData skipIfNotEmpty batch reading steps target table = target table := by
  induction steps generalizing target with
  | nil => rfl
  | cons step rest ih =>
    obtain ⟨first, ending⟩ := step
    rw [reached] at unreached
    rw [applyData]
    cases stops : ending.stopsProcess with
    | true =>
      simp only [stops, if_true, List.map_singleton, List.mem_singleton] at unreached
      simp only [if_true]
      exact Function.update_of_ne unreached _ _
    | false =>
      simp only [stops, Bool.false_eq_true, if_false, List.map_cons, List.mem_cons, not_or] at unreached
      simp only [Bool.false_eq_true, if_false]
      exact (ih unreached.2).trans (Function.update_of_ne unreached.1 _ _)

/-- A table that is come to is copied over what it held. -/
theorem applyData_reached (distinct : (steps.map Prod.fst).Nodup) (member : (table, ending) ∈ reached steps) :
    applyData skipIfNotEmpty batch reading steps target table =
      copyTableData skipIfNotEmpty batch ending.allowed (reading table) (target table) := by
  induction steps generalizing target with
  | nil => cases member
  | cons step rest ih =>
    obtain ⟨first, how⟩ := step
    rw [List.map_cons, List.nodup_cons] at distinct
    rw [reached] at member
    rw [applyData]
    cases stops : how.stopsProcess with
    | true =>
      simp only [stops, if_true, List.mem_singleton, Prod.mk.injEq] at member
      obtain ⟨rfl, rfl⟩ := member
      simp only [if_true, Function.update_self]
    | false =>
      simp only [stops, Bool.false_eq_true, if_false, List.mem_cons, Prod.mk.injEq] at member
      simp only [Bool.false_eq_true, if_false]
      rcases member with ⟨rfl, rfl⟩ | later
      · have unreached : table ∉ (reached rest).map Prod.fst := fun among =>
          distinct.1 (((reached_sublist rest).map Prod.fst).subset among)
        rw [applyData_unreached unreached, Function.update_self]
      · have apart : table ≠ first := by
          rintro rfl
          exact distinct.1 (List.mem_map.mpr ⟨_, (reached_sublist rest).subset later, rfl⟩)
        rw [ih distinct.2 later, Function.update_of_ne apart]

/-- After how many batches an attempt stopped on a table; on one it did not come to, before the first. -/
def stoppedAfter (steps : List (τ × Ending)) (table : τ) : Option Nat :=
  match (reached steps).find? fun step => step.1 = table with
  | none => some 0
  | some step => step.2.allowed

/-- What one attempt leaves in a table. -/
theorem applyData_eq (distinct : (steps.map Prod.fst).Nodup) (table : τ) :
    applyData skipIfNotEmpty batch reading steps target table =
      copyTableData skipIfNotEmpty batch (stoppedAfter steps table) (reading table) (target table) := by
  unfold stoppedAfter
  cases found : (reached steps).find? fun step => step.1 = table with
  | none =>
    have unreached : table ∉ (reached steps).map Prod.fst := by
      intro among
      obtain ⟨step, member, same⟩ := List.mem_map.mp among
      exact List.find?_eq_none.mp found step member (decide_eq_true same)
    rw [applyData_unreached unreached]
    have nothing : copyBatches batch (some 0) (reading table) (target table) = target table := by
      rw [copyBatches, if_pos rfl]
    simp only [copyTableData, nothing, ite_self]
  | some step =>
    obtain ⟨first, how⟩ := step
    have same : first = table := by
      have holds := List.find?_some found
      simpa using holds
    have member := List.mem_of_find?_eq_some found
    rw [same] at member
    exact applyData_reached distinct member

end Attempts

/-! ## Running the copy again -/

section Again

variable {source : τ → Multiset ρ}

/-- The rows of every table in the order a query returned them. -/
structure Reading (source : τ → Multiset ρ) where
  rows : τ → List ρ
  whole : ∀ table, (rows table : Multiset ρ) = source table

/-- An attempt: the tables of the plan, each once, with how its copy ended. -/
structure Attempt (τ : Type*) where
  steps : List (τ × Ending)
  distinct : (steps.map Prod.fst).Nodup

namespace Attempt

def tables (attempt : Attempt τ) : List τ := attempt.steps.map Prod.fst

/-- The same plan run to its end. -/
def again (attempt : Attempt τ) : Attempt τ where
  steps := attempt.tables.map fun table => (table, .ends)
  distinct := by
    rw [List.map_map, Function.comp_def, List.map_id']
    exact attempt.distinct

/-- What the tables hold after an attempt. -/
def leaves (attempt : Attempt τ) (skipIfNotEmpty : Bool) (batch : BatchSize) (reading : Reading source)
    (target : τ → Multiset ρ) : τ → Multiset ρ :=
  applyData skipIfNotEmpty batch reading.rows attempt.steps target

omit [DecidableEq τ] in
theorem reached_again (tables : List τ) : reached (tables.map fun table => (table, Ending.ends)) =
    tables.map fun table => (table, Ending.ends) := by
  induction tables with
  | nil => rfl
  | cons table rest ih =>
    rw [List.map_cons, reached, ih]
    exact if_neg Bool.false_ne_true

theorem stoppedAfter_again {attempt : Attempt τ} {table : τ} (planned : table ∈ attempt.tables) :
    stoppedAfter attempt.again.steps table = none := by
  unfold stoppedAfter
  rw [again, reached_again]
  cases found : (attempt.tables.map fun table => (table, Ending.ends)).find? fun step => step.1 = table with
  | none =>
    have member := List.mem_map_of_mem (f := fun table => (table, Ending.ends)) planned
    exact absurd (decide_eq_true rfl) (List.find?_eq_none.mp found _ member)
  | some step =>
    obtain ⟨_, _, rfl⟩ := List.mem_map.mp (List.mem_of_find?_eq_some found)
    rfl

end Attempt

/-- When a table is whole after the copy is run again: with the skip it was filled before, or none or all of its
rows were committed by the batches that were; without it, nothing was there. -/
def Resumable (skipIfNotEmpty : Bool) (batch : BatchSize) (source before : Multiset ρ) (allowed : Option Nat) : Prop :=
  if skipIfNotEmpty = true then
    (before ≠ 0 → before = source) ∧
      (before = 0 → ∀ batches, allowed = some batches → batches = 0 ∨ source.card ≤ batches * batch.size)
  else before = 0 ∧ (source = 0 ∨ allowed = some 0)

section OneTable

variable {batch : BatchSize} {allowed : Option Nat} {first second : List ρ} {before : Multiset ρ}

theorem committed_eq_nil_iff {rows : List ρ} : committed batch allowed rows = [] ↔ rows = [] ∨ allowed = some 0 := by
  have positive := batch.positive.ne'
  cases allowed with
  | none => simp [committed]
  | some batches => simp [committed, positive, or_comm]

/-- The batches of a table are all of it when they are as many rows. -/
theorem committed_eq_whole_iff {rows : List ρ} : (committed batch allowed rows : Multiset ρ) = rows ↔
    ∀ batches, allowed = some batches → rows.length ≤ batches * batch.size := by
  cases allowed with
  | none => simp [committed]
  | some batches =>
    simp only [committed, Option.some.injEq, forall_eq']
    constructor
    · intro same
      have lengths := congrArg Multiset.card same
      rw [Multiset.coe_card, Multiset.coe_card, List.length_take] at lengths
      omega
    · intro enough
      rw [List.take_of_length_le enough]

theorem resumed_skipping (same : (second : Multiset ρ) = first) :
    copyTableData true batch none second (copyTableData true batch allowed first before) = first ↔
      Resumable true batch first before allowed := by
  rw [Resumable, if_pos rfl]
  by_cases filled : before = 0
  · subst filled
    rw [copyTableData_of_empty]
    by_cases nothing : committed batch allowed first = []
    · have stopped := committed_eq_nil_iff.mp nothing
      rw [nothing, Multiset.coe_nil, copyTableData_of_empty]
      refine iff_of_true same ⟨fun filled => absurd rfl filled, fun _ batches stoppedAt => ?_⟩
      rcases stopped with empty | none_done
      · right
        simp [empty]
      · left
        exact Option.some.inj (stoppedAt.symm.trans none_done)
    · rw [copyTableData_of_nonempty (by simpa using nothing), committed_eq_whole_iff]
      refine ⟨fun whole => ⟨fun filled => absurd rfl filled, fun _ batches stoppedAt => Or.inr ?_⟩, ?_⟩
      · exact whole batches stoppedAt
      · rintro ⟨-, resumable⟩ batches stoppedAt
        rcases resumable rfl batches stoppedAt with rfl | enough
        · exact absurd (committed_eq_nil_iff.mpr (Or.inr stoppedAt)) nothing
        · exact enough
  · rw [copyTableData_of_nonempty filled, copyTableData_of_nonempty filled]
    exact ⟨fun whole => ⟨fun _ => whole, fun empty => absurd empty filled⟩, fun resumable => resumable.1 filled⟩

theorem resumed_unskipped (same : (second : Multiset ρ) = first) :
    copyTableData false batch none second (copyTableData false batch allowed first before) = first ↔
      Resumable false batch first before allowed := by
  rw [Resumable, if_neg Bool.false_ne_true, copyTableData_unskipped, copyTableData_unskipped]
  rw [committed, same, add_eq_right, add_eq_zero, Multiset.coe_eq_zero, committed_eq_nil_iff, Multiset.coe_eq_zero]

theorem resumedTable_iff (skipIfNotEmpty : Bool) (same : (second : Multiset ρ) = first) :
    copyTableData skipIfNotEmpty batch none second (copyTableData skipIfNotEmpty batch allowed first before) = first ↔
      Resumable skipIfNotEmpty batch first before allowed := by
  cases skipIfNotEmpty with
  | false => exact resumed_unskipped same
  | true => exact resumed_skipping same

end OneTable

end Again

end DbaBrain.Common.SchemaCopy
