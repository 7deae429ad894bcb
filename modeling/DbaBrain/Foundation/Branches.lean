import Mathlib

/-!
# Clearing the entries of abandoned branches

A step owns the entry at its place and may wait for the entry of another step: it is
asked where that entry passes, and a blank entry never does.  One pass goes through
the steps in their order and blanks each entry whose step is not asked.  What it
leaves is settled exactly when the entries it blanks are those of the steps that are
out of the branch.
-/

namespace DbaBrain.Foundation.Branches

/-- `waits` names the step that is waited for, and says which of its entries pass. -/
structure Step (ν : Type) {α : Type} (blank : α) where
  name : Option ν
  place : Option Nat
  waits : Option (ν × (α → Bool))
  not_blank : ∀ wait ∈ waits, wait.2 blank = false

section Pass

variable {ν α : Type} [DecidableEq ν] {blank : α} (steps : List (Step ν blank))

def named (name : ν) : Option (Step ν blank) := steps.reverse.find? fun step => step.name = some name

def entry (entries : List α) (step : Step ν blank) : α := (step.place.bind fun place => entries[place]?).getD blank

def asked (entries : List α) (step : Step ν blank) : Bool :=
  match step.waits with
  | none => true
  | some (name, passes) =>
      match named steps name with
      | none => false
      | some controller => passes (entry entries controller)

def visit (entries : List α) (step : Step ν blank) : List α :=
  match step.place with
  | none => entries
  | some place => if asked steps entries step then entries else entries.set place blank

def clear (entries : List α) : List α := steps.foldl (visit steps) entries

def Awaits (step controller : Step ν blank) : Prop := ∃ wait ∈ step.waits, named steps wait.1 = some controller

/-- A step is out of the branch when it is not asked, or waits for a step that is out of it. -/
inductive Unreached (entries : List α) : Step ν blank → Prop
  | fails {step : Step ν blank} (fails : asked steps entries step = false) : Unreached entries step
  | awaits {step controller : Step ν blank} (awaits : Awaits steps step controller)
      (unreached : Unreached entries controller) : Unreached entries step

/-- The entry at a place is blanked by the steps in front: its step is not asked, or waits for an entry that
is blanked ahead of it. -/
inductive Blanked (entries : List α) : List (Step ν blank) → Nat → Prop
  | fails {front back : List (Step ν blank)} {step : Step ν blank} {place : Nat} (owns : step.place = some place)
      (fails : asked steps entries step = false) : Blanked entries (front ++ step :: back) place
  | awaits {front back : List (Step ν blank)} {step controller : Step ν blank} {place awaited : Nat}
      (owns : step.place = some place) (awaits : Awaits steps step controller)
      (stored : controller.place = some awaited) (ahead : Blanked entries front awaited) :
      Blanked entries (front ++ step :: back) place

/-- Every entry's step is asked, what was reached is unchanged, and another pass changes nothing. -/
structure Settled (entries result : List α) : Prop where
  asked : ∀ step ∈ steps, ∀ place, step.place = some place → ∀ held, result[place]? = some held → held ≠ blank →
    asked steps result step = true
  kept : ∀ step ∈ steps, ¬ Unreached steps entries step → ∀ place, step.place = some place →
    result[place]? = entries[place]?
  again : clear steps result = result

/-- An entry's step is out of the branch exactly when the pass blanks the entry. -/
def InOrder (entries : List α) : Prop :=
  ∀ step ∈ steps, ∀ place held, step.place = some place → entries[place]? = some held → held ≠ blank →
    (Unreached steps entries step ↔ Blanked steps entries steps place)

end Pass

/-! ## What the pass leaves -/

section Run

variable {ν α : Type} [DecidableEq ν] {blank : α} {steps : List (Step ν blank)} {entries : List α}
variable {step : Step ν blank} {front : List (Step ν blank)} {place : Nat}

theorem mem_of_named {name : ν} (found : named steps name = some step) : step ∈ steps :=
  List.mem_reverse.mp (List.mem_of_find?_eq_some found)

variable {controller : Step ν blank} {later : List α}

theorem mem_of_awaits (awaits : Awaits steps step controller) : controller ∈ steps := by
  obtain ⟨_, _, found⟩ := awaits
  exact mem_of_named found

theorem exists_entry_of_asked (awaits : Awaits steps step controller) (stands : asked steps entries step = true) :
    ∃ place held, controller.place = some place ∧ entries[place]? = some held ∧ held ≠ blank := by
  obtain ⟨⟨name, passes⟩, waits, found⟩ := awaits
  have waits : step.waits = some (name, passes) := waits
  have never : passes blank = false := step.not_blank _ waits
  simp only [asked, waits, found] at stands
  cases owned : controller.place with
  | none =>
    rw [entry, owned, Option.bind_none, Option.getD_none, never] at stands
    cases stands
  | some place =>
    rw [entry, owned, Option.bind_some] at stands
    cases stored : entries[place]? with
    | none =>
      rw [stored, Option.getD_none, never] at stands
      cases stands
    | some held =>
      refine ⟨place, held, rfl, stored, ?_⟩
      rintro rfl
      rw [stored, Option.getD_some, never] at stands
      cases stands

theorem Blanked.append (blanked : Blanked steps entries front place) (more : List (Step ν blank)) :
    Blanked steps entries (front ++ more) place := by
  cases blanked with
  | fails owns fails =>
    rw [List.append_assoc, List.cons_append]
    exact .fails owns fails
  | awaits owns awaits stored ahead =>
    rw [List.append_assoc, List.cons_append]
    exact .awaits owns awaits stored ahead

theorem blanked_concat_iff :
    Blanked steps entries (front ++ [step]) place ↔ Blanked steps entries front place ∨
      (step.place = some place ∧ (asked steps entries step = false ∨ ∃ controller awaited,
        Awaits steps step controller ∧ controller.place = some awaited ∧ Blanked steps entries front awaited)) := by
  constructor
  · intro blanked
    generalize whole : front ++ [step] = list at blanked
    cases blanked with
    | @fails before back last place owns fails =>
      rcases List.eq_nil_or_concat back with rfl | ⟨rest, final, rfl⟩
      · obtain ⟨rfl, same⟩ := List.append_inj' whole rfl
        obtain rfl := (List.cons.inj same).1
        exact Or.inr ⟨owns, Or.inl fails⟩
      · have split : front ++ [step] = (before ++ last :: rest) ++ [final] := by simpa using whole
        obtain ⟨rfl, -⟩ := List.append_inj' split rfl
        exact Or.inl (.fails owns fails)
    | @awaits before back last controller place awaited owns awaits stored ahead =>
      rcases List.eq_nil_or_concat back with rfl | ⟨rest, final, rfl⟩
      · obtain ⟨rfl, same⟩ := List.append_inj' whole rfl
        obtain rfl := (List.cons.inj same).1
        exact Or.inr ⟨owns, Or.inr ⟨controller, awaited, awaits, stored, ahead⟩⟩
      · have split : front ++ [step] = (before ++ last :: rest) ++ [final] := by simpa using whole
        obtain ⟨rfl, -⟩ := List.append_inj' split rfl
        exact Or.inl (.awaits owns awaits stored ahead)
  · rintro (before | ⟨owns, fails | ⟨controller, awaited, awaits, stored, ahead⟩⟩)
    · exact before.append [step]
    · exact .fails owns fails
    · exact .awaits owns awaits stored ahead

structure After (steps : List (Step ν blank)) (entries : List α) (front : List (Step ν blank)) (later : List α) :
    Prop where
  length : later.length = entries.length
  blanked : ∀ place held, Blanked steps entries front place → later[place]? = some held → held = blank
  kept : ∀ place, ¬ Blanked steps entries front place → later[place]? = entries[place]?

/-- A step is no longer asked when it was not, or when what it waits for is blanked. -/
theorem After.asked_eq_false_iff (after : After steps entries front later) (step : Step ν blank) :
    asked steps later step = false ↔ asked steps entries step = false ∨
      ∃ controller awaited, Awaits steps step controller ∧ controller.place = some awaited ∧
        Blanked steps entries front awaited := by
  by_cases blanked : ∃ controller awaited, Awaits steps step controller ∧ controller.place = some awaited ∧
      Blanked steps entries front awaited
  · refine iff_of_true ?_ (Or.inr blanked)
    obtain ⟨controller, awaited, awaits, stored, ahead⟩ := blanked
    by_contra stands
    obtain ⟨place, held, owned, found, inked⟩ := exists_entry_of_asked awaits (Bool.not_eq_false _ ▸ stands)
    obtain rfl := Option.some.inj (stored.symm.trans owned)
    exact inked (after.blanked _ _ ahead found)
  · rw [or_iff_left blanked]
    unfold asked
    cases waits : step.waits with
    | none => exact Iff.rfl
    | some wait =>
      obtain ⟨name, passes⟩ := wait
      cases found : named steps name with
      | none => simp only [found]
      | some controller =>
        have same : entry later controller = entry entries controller := by
          unfold entry
          cases owned : controller.place with
          | none => rfl
          | some awaited =>
            have clean : ¬ Blanked steps entries front awaited := fun ahead =>
              blanked ⟨controller, awaited, ⟨(name, passes), waits, found⟩, owned, ahead⟩
            rw [Option.bind_some, Option.bind_some, after.kept _ clean]
        simp only [found, same]

theorem After.visit (after : After steps entries front later) (step : Step ν blank) :
    After steps entries (front ++ [step]) (visit steps later step) := by
  unfold Branches.visit
  cases owned : step.place with
  | none =>
    have same : ∀ place, Blanked steps entries (front ++ [step]) place ↔ Blanked steps entries front place := by
      intro place
      rw [blanked_concat_iff, owned]
      simp
    exact ⟨after.length, fun place held blanked => after.blanked place held ((same place).mp blanked),
      fun place clean => after.kept place fun ahead => clean ((same place).mpr ahead)⟩
  | some place =>
    cases stands : asked steps later step with
    | true =>
      have still : ¬ (asked steps entries step = false ∨ ∃ controller awaited, Awaits steps step controller ∧
          controller.place = some awaited ∧ Blanked steps entries front awaited) := by
        rw [← after.asked_eq_false_iff, stands]
        exact Bool.noConfusion
      refine ⟨after.length, fun other held blanked => after.blanked other held ?_, fun other clean => ?_⟩
      · exact (blanked_concat_iff.mp blanked).resolve_right fun own => still own.2
      · exact after.kept other fun ahead => clean (ahead.append [step])
    | false =>
      refine ⟨by simpa using after.length, fun other held blanked stored => ?_, fun other clean => ?_⟩
      · simp only [if_neg Bool.false_ne_true, List.getElem?_set] at stored
        split at stored
        · next same =>
            split at stored
            · exact (Option.some.inj stored).symm
            · cases stored
        · next apart =>
            refine after.blanked other held ((blanked_concat_iff.mp blanked).resolve_right fun own => ?_) stored
            exact apart (Option.some.inj (owned.symm.trans own.1))
      · have apart : place ≠ other := by
          rintro rfl
          exact clean (blanked_concat_iff.mpr (Or.inr ⟨owned, (after.asked_eq_false_iff step).mp stands⟩))
        simp only [if_neg Bool.false_ne_true, List.getElem?_set_ne apart]
        exact after.kept other fun ahead => clean (ahead.append [step])

theorem after_foldl (front : List (Step ν blank)) :
    After steps entries front (front.foldl (visit steps) entries) := by
  induction front using List.reverseRecOn with
  | nil =>
    refine ⟨rfl, fun place held blanked => ?_, fun _ _ => rfl⟩
    generalize nothing : ([] : List (Step ν blank)) = front at blanked
    cases blanked with
    | fails => simp at nothing
    | awaits => simp at nothing
  | append_singleton front step ih =>
    rw [List.foldl_concat]
    exact ih.visit step

theorem after_clear : After steps entries steps (clear steps entries) := after_foldl steps

/-! ## When it is settled -/

/-- Blanking a blank entry changes nothing. -/
theorem set_blank (empty : ∀ held, entries[place]? = some held → held = blank) : entries.set place blank = entries := by
  refine List.ext_getElem? fun other => ?_
  rw [List.getElem?_set]
  split
  · next same =>
      subst same
      cases stored : entries[place]? with
      | none => rw [if_neg (by simpa using stored)]
      | some held => rw [if_pos (List.getElem?_eq_some_iff.mp stored).1, empty held stored]
  · rfl

/-- Nothing is blanked where every entry's step is asked. -/
theorem clear_eq_self (stands : ∀ step ∈ steps, ∀ place, step.place = some place → ∀ held,
    entries[place]? = some held → held ≠ blank → asked steps entries step = true) : clear steps entries = entries := by
  have each : ∀ front : List (Step ν blank), (∀ step ∈ front, step ∈ steps) →
      front.foldl (visit steps) entries = entries := by
    intro front inside
    induction front with
    | nil => rfl
    | cons step rest ih =>
      have first : visit steps entries step = entries := by
        unfold visit
        cases owned : step.place with
        | none => rfl
        | some place =>
          cases called : asked steps entries step with
          | true => rfl
          | false =>
            simp only [if_neg Bool.false_ne_true]
            refine set_blank fun held stored => ?_
            by_contra inked
            have standing := stands step (inside step List.mem_cons_self) place owned held stored inked
            rw [called] at standing
            cases standing
      rw [List.foldl_cons, first]
      exact ih fun other member => inside other (List.mem_cons_of_mem step member)
  exact each steps fun _ member => member

theorem settled_iff : Settled steps entries (clear steps entries) ↔ InOrder steps entries := by
  have after : After steps entries steps (clear steps entries) := after_clear
  constructor
  · intro settled
    have empty : ∀ step, Unreached steps entries step → step ∈ steps → ∀ place, step.place = some place →
        ∀ held, (clear steps entries)[place]? = some held → held = blank := by
      intro step unreached
      induction unreached with
      | @fails step fails =>
        intro member place owned held stored
        by_contra inked
        have stands := settled.asked step member place owned held stored inked
        rw [(after.asked_eq_false_iff step).mpr (Or.inl fails)] at stands
        cases stands
      | @awaits step controller awaits _ ih =>
        intro member place owned held stored
        by_contra inked
        have stands := settled.asked step member place owned held stored inked
        obtain ⟨awaited, answer, stores, found, given⟩ := exists_entry_of_asked awaits stands
        exact given (ih (mem_of_awaits awaits) awaited stores answer found)
    intro step member place held owned stored inked
    constructor
    · intro unreached
      by_contra clean
      exact inked (empty step unreached member place owned held ((after.kept place clean).trans stored))
    · intro blanked
      by_contra reached
      exact inked (after.blanked place held blanked ((settled.kept step member reached place owned).trans stored))
  · intro ordered
    have stands : ∀ step ∈ steps, ∀ place, step.place = some place → ∀ held,
        (clear steps entries)[place]? = some held → held ≠ blank → asked steps (clear steps entries) step = true := by
      intro step member place owned held stored inked
      have clean : ¬ Blanked steps entries steps place := fun blanked => inked (after.blanked place held blanked stored)
      rw [after.kept place clean] at stored
      have reached : ¬ Unreached steps entries step := fun unreached =>
        clean ((ordered step member place held owned stored inked).mp unreached)
      by_contra silent
      rcases (after.asked_eq_false_iff step).mp (Bool.not_eq_true _ ▸ silent) with fails | later
      · exact reached (.fails fails)
      · obtain ⟨controller, awaited, awaits, stores, ahead⟩ := later
        have called : asked steps entries step = true := by
          by_contra fails
          exact reached (.fails (Bool.not_eq_true _ ▸ fails))
        obtain ⟨other, answer, own, found, given⟩ := exists_entry_of_asked awaits called
        obtain rfl := Option.some.inj (stores.symm.trans own)
        exact reached (.awaits awaits
          ((ordered controller (mem_of_awaits awaits) awaited answer stores found given).mpr ahead))
    refine ⟨stands, fun step member reached place owned => ?_, clear_eq_self stands⟩
    by_cases blanked : Blanked steps entries steps place
    · cases stored : entries[place]? with
      | none =>
        rw [List.getElem?_eq_none_iff] at stored ⊢
        exact after.length.trans_le stored
      | some held =>
        have within : place < (clear steps entries).length := by
          rw [after.length]
          exact (List.getElem?_eq_some_iff.mp stored).1
        have left := after.blanked place _ blanked (List.getElem?_eq_getElem within)
        rw [List.getElem?_eq_getElem within, left]
        by_contra differs
        have inked : held ≠ blank := fun same => differs (by rw [same])
        exact reached ((ordered step member place held owned stored inked).mpr blanked)
    · exact after.kept place blanked

end Run

end DbaBrain.Foundation.Branches
