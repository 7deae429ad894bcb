import Mathlib

/-!
# Writing keyed values in sequence

Each value is written over what its key holds.  What was done to it is told by
what the key held; a plan tells it for every value before any is written.
-/

namespace DbaBrain.Foundation.KeyedWrites

inductive Action
  | inserted
  | updated
  | unchanged
  deriving DecidableEq

/-- Every action is counted once. -/
theorem count_total (actions : List Action) :
    actions.count .inserted + actions.count .updated + actions.count .unchanged = actions.length := by
  induction actions with
  | nil => rfl
  | cons action rest ih =>
    cases action with
    | inserted => simp; omega
    | updated => simp; omega
    | unchanged => simp; omega

theorem all_unchanged_of_count {actions : List Action} (inserted : actions.count .inserted = 0)
    (updated : actions.count .updated = 0) : ∀ action ∈ actions, action = .unchanged := by
  intro action member
  cases action with
  | inserted => exact absurd member (List.count_eq_zero.mp inserted)
  | updated => exact absurd member (List.count_eq_zero.mp updated)
  | unchanged => rfl

variable {κ φ : Type}

/-- Two values of one key are both what is held there. -/
def Settled (held : κ → Option φ) (entries : List (κ × φ)) : Prop :=
  entries.Pairwise fun first second =>
    first.1 = second.1 → held first.1 = some first.2 ∧ held first.1 = some second.2

/-- Two values of one key are the same. -/
def Consistent (entries : List (κ × φ)) : Prop :=
  entries.Pairwise fun first second => first.1 = second.1 → first.2 = second.2

theorem Settled.consistent {held : κ → Option φ} {entries : List (κ × φ)} (settled : Settled held entries) :
    Consistent entries :=
  List.Pairwise.imp (fun both same => Option.some.inj ((both same).1.symm.trans (both same).2)) settled

section Write

variable [DecidableEq κ] {held : κ → Option φ} {entries : List (κ × φ)} {entry : κ × φ}

def write (held : κ → Option φ) (entry : κ × φ) : κ → Option φ := Function.update held entry.1 (some entry.2)

@[simp]
theorem write_self : write held entry entry.1 = some entry.2 := Function.update_self _ _ _

theorem write_of_ne {key : κ} (different : key ≠ entry.1) : write held entry key = held key :=
  Function.update_of_ne different _ _

/-- What is held after all values are written. -/
def final (held : κ → Option φ) (entries : List (κ × φ)) : κ → Option φ := entries.foldl write held

theorem final_of_not_mem {key : κ} (absent : ∀ entry ∈ entries, entry.1 ≠ key) : final held entries key = held key := by
  induction entries generalizing held with
  | nil => rfl
  | cons head rest ih =>
    rw [final, List.foldl_cons, ← final, ih fun entry member => absent entry (List.mem_cons_of_mem head member)]
    exact write_of_ne (absent head List.mem_cons_self).symm

/-- The values written are held. -/
theorem final_of_mem (consistent : Consistent entries) (member : entry ∈ entries) :
    final held entries entry.1 = some entry.2 := by
  induction entries generalizing held entry with
  | nil => cases member
  | cons head rest ih =>
    obtain ⟨first, others⟩ := List.pairwise_cons.mp consistent
    rw [final, List.foldl_cons, ← final]
    rcases List.mem_cons.mp member with rfl | later
    · by_cases again : ∃ other ∈ rest, other.1 = entry.1
      · obtain ⟨other, present, same⟩ := again
        rw [← same, ih others present, first other present same.symm]
      · rw [final_of_not_mem fun other present same => again ⟨other, present, same⟩, write_self]
    · exact ih others later

end Write

variable [DecidableEq φ]

/-- What a write of the value does to what is held. -/
def action (held : Option φ) (value : φ) : Action :=
  match held with
  | none => .inserted
  | some old => if old = value then .unchanged else .updated

theorem action_eq_unchanged_iff {held : Option φ} {value : φ} : action held value = .unchanged ↔ held = some value := by
  cases held with
  | none => simp [action]
  | some old => simp [action]

/-- What is planned for each value, before any is written. -/
def plan (held : κ → Option φ) (entries : List (κ × φ)) : List Action :=
  entries.map fun entry => action (held entry.1) entry.2

variable [DecidableEq κ]

/-- What is done to each value as the values are written one after the other. -/
def replay : (κ → Option φ) → List (κ × φ) → List Action
  | _, [] => []
  | held, entry :: rest => action (held entry.1) entry.2 :: replay (write held entry) rest

section

variable {held planned : κ → Option φ} {entries : List (κ × φ)} {entry : κ × φ}

/-- Where two values of one key are what is held, the plan is what is done. -/
theorem replay_eq_plan (settled : Settled planned entries) (agree : ∀ entry ∈ entries, held entry.1 = planned entry.1) :
    replay held entries = plan planned entries := by
  induction entries generalizing held with
  | nil => rfl
  | cons head rest ih =>
    obtain ⟨first, others⟩ := List.pairwise_cons.mp settled
    rw [replay, plan, List.map_cons, agree head List.mem_cons_self, ← plan]
    congr 1
    refine ih others fun entry member => ?_
    rcases eq_or_ne entry.1 head.1 with same | different
    · rw [same, write_self, (first entry member same.symm).1]
    · rw [write_of_ne different, agree entry (List.mem_cons_of_mem head member)]

/-- What is done depends on what the written keys hold. -/
theorem replay_congr {other : κ → Option φ} (agree : ∀ entry ∈ entries, held entry.1 = other entry.1) :
    replay held entries = replay other entries := by
  induction entries generalizing held other with
  | nil => rfl
  | cons head rest ih =>
    rw [replay, replay, agree head List.mem_cons_self]
    congr 1
    refine ih fun entry member => ?_
    rcases eq_or_ne entry.1 head.1 with same | different
    · rw [same, write_self, write_self]
    · rw [write_of_ne different, write_of_ne different, agree entry (List.mem_cons_of_mem head member)]

theorem length_replay : (replay held entries).length = entries.length := by
  induction entries generalizing held with
  | nil => rfl
  | cons head rest ih => rw [replay, List.length_cons, List.length_cons, ih]

/-- Nothing is done where every value is held already, and only there. -/
theorem replay_unchanged_iff :
    (∀ done ∈ replay held entries, done = .unchanged) ↔ ∀ entry ∈ entries, held entry.1 = some entry.2 := by
  induction entries generalizing held with
  | nil => simp [replay]
  | cons head rest ih =>
    rw [replay, List.forall_mem_cons, List.forall_mem_cons, action_eq_unchanged_iff]
    refine and_congr_right fun first => ?_
    have same : write held head = held := by
      rw [write, ← first]
      exact Function.update_eq_self _ _
    rw [same]
    exact ih

/-- With one value a key, what is done is what was planned, or nothing. -/
theorem replay_plan_forall₂ (consistent : Consistent entries)
    (near : ∀ entry ∈ entries, held entry.1 = planned entry.1 ∨ held entry.1 = some entry.2) :
    List.Forall₂ (fun done told => done = told ∨ done = .unchanged) (replay held entries) (plan planned entries) := by
  induction entries generalizing held with
  | nil => exact .nil
  | cons head rest ih =>
    obtain ⟨first, others⟩ := List.pairwise_cons.mp consistent
    refine .cons ?_ (ih others ?_)
    · rcases near head List.mem_cons_self with same | kept
      · exact Or.inl (congrArg (action · head.2) same)
      · exact Or.inr (action_eq_unchanged_iff.mpr kept)
    · intro entry member
      rcases eq_or_ne entry.1 head.1 with same | different
      · rw [same, write_self, first entry member same.symm]
        exact Or.inr rfl
      · rw [write_of_ne different]
        exact near entry (List.mem_cons_of_mem head member)

/-- Lists that differ only where the first says `mark` are equal when they say it equally often. -/
theorem eq_of_count_eq {α : Type} [DecidableEq α] {mark : α} {first second : List α}
    (near : List.Forall₂ (fun item other => item = other ∨ item = mark) first second)
    (often : first.count mark = second.count mark) : first = second := by
  have fewer : ∀ {xs ys : List α}, List.Forall₂ (fun item other => item = other ∨ item = mark) xs ys →
      ys.count mark ≤ xs.count mark := by
    intro xs ys related
    induction related with
    | nil => exact Nat.le_refl _
    | cons head _ ih =>
      rcases head with rfl | rfl
      · rw [List.count_cons, List.count_cons]
        exact Nat.add_le_add_right ih _
      · rw [List.count_cons_self, List.count_cons]
        split
        · exact Nat.succ_le_succ ih
        · exact ih.trans (Nat.le_succ _)
  induction near with
  | nil => rfl
  | cons head rest ih =>
    rename_i item other _ _
    rcases head with rfl | rfl
    · rw [List.count_cons, List.count_cons] at often
      rw [ih (Nat.add_right_cancel often)]
    · rcases eq_or_ne other item with rfl | different
      · rw [List.count_cons_self, List.count_cons_self] at often
        rw [ih (Nat.succ.inj often)]
      · have less := fewer rest
        rw [List.count_cons_self, List.count_cons_of_ne different] at often
        omega

/-- A value written twice to a key that is not settled is planned wrong. -/
theorem settled_of_replay_eq_plan (consistent : Consistent entries) (same : replay held entries = plan planned entries) :
    Settled planned entries := by
  have told : ∀ {rest : List (κ × φ)} {held : κ → Option φ}, Consistent rest → replay held rest = plan planned rest →
      ∀ entry ∈ rest, held entry.1 = some entry.2 → planned entry.1 = some entry.2 := by
    intro rest
    induction rest with
    | nil => exact fun _ _ _ member => absurd member List.not_mem_nil
    | cons head rest ih =>
      intro held once equal entry member kept
      obtain ⟨first, others⟩ := List.pairwise_cons.mp once
      obtain ⟨heads, tails⟩ := List.cons.inj equal
      rcases List.mem_cons.mp member with rfl | later
      · rw [← action_eq_unchanged_iff]
        exact heads.symm.trans (action_eq_unchanged_iff.mpr kept)
      · refine ih others tails entry later ?_
        rcases eq_or_ne entry.1 head.1 with own | different
        · rw [own, write_self, first entry later own.symm]
        · rw [write_of_ne different, kept]
  induction entries generalizing held with
  | nil => exact List.Pairwise.nil
  | cons head rest ih =>
    obtain ⟨first, others⟩ := List.pairwise_cons.mp consistent
    obtain ⟨_, tails⟩ := List.cons.inj same
    refine List.pairwise_cons.mpr ⟨?_, ih others tails⟩
    intro entry member own
    have held_after : write held head entry.1 = some entry.2 := by rw [← own, write_self, first entry member own]
    have kept := told others tails entry member held_after
    rw [own]
    exact ⟨by rw [kept, first entry member own], kept⟩

/-- The plan counts what is done, and doing it once more does nothing, exactly when two values of one key
are both what is held there. -/
theorem plan_counts_iff :
    ((∀ kind, (replay held entries).count kind = (plan held entries).count kind) ∧
        ∀ done ∈ replay (final held entries) entries, done = .unchanged) ↔
      Settled held entries := by
  constructor
  · rintro ⟨counts, again⟩
    have written := replay_unchanged_iff.mp again
    have consistent : Consistent entries := by
      refine List.Pairwise.imp_of_mem (R := fun _ _ => True) ?_ (List.pairwise_of_forall fun _ _ => trivial)
      intro first second member present _ same
      exact Option.some.inj ((written first member).symm.trans (same ▸ written second present))
    have near : List.Forall₂ (fun done told => done = told ∨ done = .unchanged) (replay held entries) (plan held entries) :=
      replay_plan_forall₂ consistent fun _ _ => Or.inl rfl
    exact settled_of_replay_eq_plan consistent (eq_of_count_eq near (counts .unchanged))
  · intro settled
    refine ⟨fun kind => by rw [replay_eq_plan settled fun _ _ => rfl], ?_⟩
    exact replay_unchanged_iff.mpr fun entry member => final_of_mem settled.consistent member

end

end DbaBrain.Foundation.KeyedWrites
