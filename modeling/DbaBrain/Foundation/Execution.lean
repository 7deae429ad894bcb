import Mathlib

/-!
# Executions of a labelled step function

A run is a list of labels replayed by a step function that refuses a label it
does not enable.  A condition on single steps is followed along a whole run,
and an invariant is carried by it.
-/

namespace DbaBrain.Foundation.Execution

section Runs

variable {σ ι : Type*} {step : σ → ι → Option σ} {condition other : σ → ι → σ → Prop}
  {invariant : σ → Prop} {s next final : σ} {label : ι} {labels : List ι}

/-- The state the labels lead to, if every one of them is enabled. -/
def exec (step : σ → ι → Option σ) : σ → List ι → Option σ
  | s, [] => some s
  | s, label :: rest =>
      match step s label with
      | none => none
      | some next => exec step next rest

theorem exec_cons_eq_some :
    exec step s (label :: labels) = some final ↔
      ∃ next, step s label = some next ∧ exec step next labels = some final := by
  cases enabled : step s label with
  | none => simp [exec, enabled]
  | some next => simp [exec, enabled]

theorem exec_append (s : σ) (front back : List ι) :
    exec step s (front ++ back) = (exec step s front).bind fun middle => exec step middle back := by
  induction front generalizing s with
  | nil => rfl
  | cons label rest ih =>
    cases enabled : step s label with
    | none => simp [exec, enabled]
    | some next => simpa [exec, enabled] using ih next

/-- The condition holds of every step of the run: the state before it, its label and the state after it. -/
def Every (step : σ → ι → Option σ) (condition : σ → ι → σ → Prop) : σ → List ι → Prop
  | _, [] => True
  | s, label :: rest =>
      ∀ next, step s label = some next → condition s label next ∧ Every step condition next rest

theorem every_cons_of_eq_some (enabled : step s label = some next) :
    Every step condition s (label :: labels) ↔ condition s label next ∧ Every step condition next labels := by
  simp [Every, enabled]

instance decidableEvery [∀ s label next, Decidable (condition s label next)] :
    (s : σ) → (labels : List ι) → Decidable (Every step condition s labels)
  | _, [] => isTrue trivial
  | s, label :: rest =>
      match enabled : step s label with
      | none => isTrue fun next reached => by simp [enabled] at reached
      | some next =>
          have : Decidable (Every step condition next rest) := decidableEvery next rest
          decidable_of_iff (condition s label next ∧ Every step condition next rest)
            (every_cons_of_eq_some enabled).symm

theorem exec_invariant_of_every
    (preserved : ∀ s label next, step s label = some next → condition s label next →
      invariant s → invariant next)
    (holds : Every step condition s labels) (initial : invariant s)
    (run : exec step s labels = some final) : invariant final := by
  induction labels generalizing s with
  | nil =>
    obtain rfl := Option.some.inj run
    exact initial
  | cons label rest ih =>
    obtain ⟨next, enabled, remaining⟩ := exec_cons_eq_some.mp run
    obtain ⟨now, later⟩ := (every_cons_of_eq_some enabled).mp holds
    exact ih later (preserved s label next enabled now initial) remaining

theorem every_true (s : σ) (labels : List ι) : Every step (fun _ _ _ => True) s labels := by
  induction labels generalizing s with
  | nil => trivial
  | cons label rest ih => exact fun next _ => ⟨trivial, ih next⟩

theorem exec_invariant (preserved : ∀ s label next, step s label = some next → invariant s → invariant next)
    (initial : invariant s) (run : exec step s labels = some final) : invariant final :=
  exec_invariant_of_every (fun s label next enabled _ => preserved s label next enabled)
    (every_true s labels) initial run

/-- Under an invariant, a condition each step derives from another follows it along the run. -/
theorem Every.mono (preserved : ∀ s label next, step s label = some next → condition s label next →
      invariant s → invariant next)
    (derived : ∀ s label next, step s label = some next → invariant s → condition s label next →
      other s label next)
    (initial : invariant s) (holds : Every step condition s labels) : Every step other s labels := by
  induction labels generalizing s with
  | nil => trivial
  | cons label rest ih =>
    intro next enabled
    obtain ⟨now, later⟩ := holds next enabled
    exact ⟨derived s label next enabled initial now,
      ih (preserved s label next enabled now initial) later⟩

theorem Every.imp (derived : ∀ s label next, step s label = some next → condition s label next →
      other s label next)
    (holds : Every step condition s labels) : Every step other s labels :=
  holds.mono (fun _ _ _ _ _ (_ : True) => trivial) (fun s label next enabled _ => derived s label next enabled) trivial

theorem Every.and (holds : Every step condition s labels) (also : Every step other s labels) :
    Every step (fun s label next => condition s label next ∧ other s label next) s labels := by
  induction labels generalizing s with
  | nil => trivial
  | cons label rest ih =>
    intro next enabled
    obtain ⟨now, later⟩ := holds next enabled
    obtain ⟨here, after⟩ := also next enabled
    exact ⟨⟨now, here⟩, ih later after⟩

variable {front : List ι}
variable {middle : σ}

theorem Every.last (holds : Every step condition s (front ++ [label])) (run : exec step s front = some middle)
    (enabled : step middle label = some next) : condition middle label next := by
  induction front generalizing s with
  | nil =>
    obtain rfl := Option.some.inj run
    exact (holds next enabled).1
  | cons first rest ih =>
    obtain ⟨after, reached, remaining⟩ := exec_cons_eq_some.mp run
    exact ih (holds after reached).2 remaining

theorem Every.ends (holds : Every step condition s (front ++ [label]))
    (run : exec step s (front ++ [label]) = some final) :
    ∃ middle, exec step s front = some middle ∧ condition middle label final := by
  rw [exec_append, Option.bind_eq_some_iff] at run
  obtain ⟨middle, reached, last⟩ := run
  obtain ⟨next, enabled, ended⟩ := exec_cons_eq_some.mp last
  obtain rfl := Option.some.inj ended
  exact ⟨middle, reached, holds.last reached enabled⟩

theorem every_of_forall_mem {allowed : ι → Prop} (s : σ) (all : ∀ label ∈ labels, allowed label) :
    Every step (fun _ label _ => allowed label) s labels := by
  induction labels generalizing s with
  | nil => trivial
  | cons label rest ih =>
    intro next _
    exact ⟨all label List.mem_cons_self, ih next fun other member => all other (List.mem_cons_of_mem label member)⟩

theorem Every.rest {back : List ι} (holds : Every step condition s (front ++ back))
    (run : exec step s front = some middle) : Every step condition middle back := by
  induction front generalizing s with
  | nil =>
    obtain rfl := Option.some.inj run
    exact holds
  | cons first rest ih =>
    obtain ⟨after, reached, remaining⟩ := exec_cons_eq_some.mp run
    exact ih (holds after reached).2 remaining

/-- A step that breaks the condition leaves a mark no later step removes, so a run that ends
unmarked keeps the condition throughout. -/
theorem every_of_final (marked : σ → Prop)
    (marks : ∀ s label next, step s label = some next → ¬ condition s label next → marked next)
    (stays : ∀ s label next, step s label = some next → marked s → marked next)
    (run : exec step s labels = some final) (unmarked : ¬ marked final) :
    Every step condition s labels := by
  induction labels generalizing s with
  | nil => trivial
  | cons label rest ih =>
    obtain ⟨next, enabled, remaining⟩ := exec_cons_eq_some.mp run
    rw [every_cons_of_eq_some enabled]
    refine ⟨?_, ih remaining⟩
    by_contra broken
    exact unmarked (exec_invariant stays (marks s label next enabled broken) remaining)

/-- How many steps of a run are an event. -/
def counted (step : σ → ι → Option σ) (event : σ → ι → Bool) : σ → List ι → Nat
  | _, [] => 0
  | s, label :: rest =>
      match step s label with
      | none => 0
      | some next => (event s label).toNat + counted step event next rest

/-- Where one event spends a credit that only another gives, a run spends what there was and what it is given at most. -/
theorem counted_le {spends gives : σ → ι → Bool} (credit : σ → Nat)
    (balanced : ∀ s label next, step s label = some next →
      (spends s label).toNat + credit next ≤ credit s + (gives s label).toNat) (s : σ) (labels : List ι) :
    counted step spends s labels ≤ credit s + counted step gives s labels := by
  induction labels generalizing s with
  | nil => exact Nat.zero_le _
  | cons label rest ih =>
    cases enabled : step s label with
    | none => simp [counted, enabled]
    | some next =>
      have now := balanced s label next enabled
      have later := ih next
      simp only [counted, enabled]
      omega

end Runs

/-! ## Steps that may fail -/

section Fallible

variable {ε α β : Type*}
variable {first : Except ε α} {result : β} {check : α → Except ε PUnit} {related : α → β → Prop} {ys : List β}

theorem bind_eq_ok {next : α → Except ε β} (ok : first.bind next = .ok result) :
    ∃ value, first = .ok value ∧ next value = .ok result := by
  cases first with
  | error failure => cases ok
  | ok value => exact ⟨value, rfl, ok⟩

variable {xs : List α} {make : α → Except ε β}

theorem forM_ok (ok : xs.forM check = .ok ()) : ∀ x ∈ xs, check x = .ok () := by
  induction xs with
  | nil => simp
  | cons x rest ih =>
    have steps : (check x).bind (fun _ => rest.forM check) = .ok () := ok
    obtain ⟨_, first, later⟩ := bind_eq_ok steps
    intro y member
    rcases List.mem_cons.mp member with rfl | further
    · exact first
    · exact ih later y further

theorem forM_ok_of_forall (each : ∀ x ∈ xs, check x = .ok ()) : xs.forM check = .ok () := by
  induction xs with
  | nil => rfl
  | cons x rest ih =>
    have steps : (x :: rest).forM check = (check x).bind fun _ => rest.forM check := rfl
    rw [steps, each x List.mem_cons_self]
    exact ih fun y member => each y (List.mem_cons_of_mem _ member)

theorem map_eq_ok {next : α → β} (ok : first.map next = .ok result) :
    ∃ value, first = .ok value ∧ next value = result := by
  cases first with
  | error failure => cases ok
  | ok value => exact ⟨value, rfl, Except.ok.inj ok⟩

/-- A pass that ends made a result of each element. -/
theorem forall₂_of_mapM {made : List β} (ok : xs.mapM make = .ok made) :
    List.Forall₂ (fun x y => make x = .ok y) xs made := by
  induction xs generalizing made with
  | nil =>
    cases ok
    exact .nil
  | cons x rest ih =>
    rw [List.mapM_cons] at ok
    obtain ⟨y, first, later⟩ := bind_eq_ok ok
    obtain ⟨ys, others, whole⟩ := bind_eq_ok later
    cases whole
    exact .cons first (ih others)

/-- What stands on one side of a pairing has a partner on the other. -/
theorem exists_left_of_forall₂ (each : List.Forall₂ related xs ys) {y : β} (member : y ∈ ys) :
    ∃ x ∈ xs, related x y := by
  induction each with
  | nil => cases member
  | @cons x y rest others first _ ih =>
    rcases List.mem_cons.mp member with rfl | further
    · exact ⟨x, List.mem_cons_self, first⟩
    · obtain ⟨z, among, paired⟩ := ih further
      exact ⟨z, List.mem_cons_of_mem _ among, paired⟩

theorem exists_right_of_forall₂ (each : List.Forall₂ related xs ys) {x : α} (member : x ∈ xs) :
    ∃ y ∈ ys, related x y := exists_left_of_forall₂ each.flip member

theorem exists_of_mem_mapM {made : List β} (ok : xs.mapM make = .ok made) {y : β} (member : y ∈ made) :
    ∃ x ∈ xs, make x = .ok y := exists_left_of_forall₂ (forall₂_of_mapM ok) member

theorem mapM_ok_of_forall (each : ∀ x ∈ xs, ∃ y, make x = .ok y) : ∃ made, xs.mapM make = .ok made := by
  induction xs with
  | nil => exact ⟨[], rfl⟩
  | cons x rest ih =>
    obtain ⟨y, first⟩ := each x List.mem_cons_self
    obtain ⟨ys, others⟩ := ih fun other member => each other (List.mem_cons_of_mem _ member)
    refine ⟨y :: ys, ?_⟩
    rw [List.mapM_cons, first, others]
    rfl

/-- A pass comes to nothing exactly where one of its elements does. -/
theorem mapM_eq_none_iff {make : α → Option β} : xs.mapM make = none ↔ ∃ x ∈ xs, make x = none := by
  induction xs with
  | nil => simp
  | cons x rest ih =>
    rw [List.mapM_cons, List.exists_mem_cons_iff]
    cases first : make x with
    | none => simp
    | some y =>
      rw [← ih]
      cases rest.mapM make <;> simp

/-- A pass that fails failed at one of its elements. -/
theorem mapM_error {failure : ε} (failed : xs.mapM make = .error failure) : ∃ x ∈ xs, make x = .error failure := by
  induction xs with
  | nil => cases failed
  | cons x rest ih =>
    rw [List.mapM_cons] at failed
    cases first : make x with
    | error other =>
      rw [first] at failed
      cases failed
      exact ⟨x, List.mem_cons_self, first⟩
    | ok y =>
      rw [first] at failed
      cases others : rest.mapM make with
      | error other =>
        rw [others] at failed
        cases failed
        obtain ⟨z, member, broken⟩ := ih others
        exact ⟨z, List.mem_cons_of_mem _ member, broken⟩
      | ok ys =>
        rw [others] at failed
        cases failed

end Fallible

end DbaBrain.Foundation.Execution
