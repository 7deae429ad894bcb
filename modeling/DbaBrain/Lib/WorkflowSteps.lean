import DbaBrain.Foundation.Branches
import DbaBrain.Foundation.Dict
import DbaBrain.Foundation.Execution
import DbaBrain.Foundation.PyValues

/-!
# A workflow's branches

A step is asked where the answer its `ask_when` names passes the rule.  The answers of
steps that are not asked are blanked in one pass over the steps as they are listed, so
an answer whose controlling answer is blanked further down the list stays.
-/

namespace DbaBrain.Lib.WorkflowSteps

open DbaBrain.Foundation
open DbaBrain.Foundation.PyValues

/-- What a call raises: `int` of a position, or an index out of range. -/
inductive Fault
  | position (error : IntError)
  | index
  deriving DecidableEq

/-! ## The functions -/

/-- Where a Python index leads in a list of so many items. -/
def indexAt (length : Nat) (index : Int) : Except Fault Nat :=
  if 0 ≤ index then if index < length then .ok index.toNat else .error .index
  else if 0 ≤ length + index then .ok (length + index).toNat else .error .index

section Steps

variable (python : Python)

/-- `str(record.get(field) or "").strip()`. -/
def textOf (record : Record) (field : String) : String :=
  Text.strip (if truthy (get record field) then python.str (get record field) else "")

/-- `int(step.get("position", 1))`. -/
def positionOf (step : Record) : Except Fault Int :=
  if has step "position" then (python.int (get step "position")).mapError .position else .ok 1

/-- `args[position - 1] if len(args) >= position else ""`. -/
def answerAt (args : List String) (position : Int) : Except Fault String := do
  if position ≤ args.length then
    let place ← indexAt args.length (position - 1)
    return args.getD place ""
  else return ""

def answersFrom (args : List String) : Dict String String → List Record → Except Fault (Dict String String)
  | answered, [] => .ok answered
  | answered, step :: rest =>
      if textOf python step "name" = "" then answersFrom args answered rest
      else do
        let position ← positionOf python step
        let answer ← answerAt args position
        answersFrom args (answered.set (textOf python step "name") (Text.strip answer)) rest

def answersByName (steps : List Record) (args : List String) : Except Fault (Dict String String) :=
  answersFrom python args Dict.empty steps

/-- What a rule says of an answer that is not blank. -/
def rulePasses (rule : Record) (value : String) : Bool :=
  if has rule "equals" then value = python.str (get rule "equals")
  else if has rule "not_equals" then value ≠ python.str (get rule "not_equals")
  else if has rule "in" then
    match get rule "in" with
    | .array allowed => value ∈ allowed.map python.str
    | _ => false
  else if has rule "not_in" then
    match get rule "not_in" with
    | .array blocked => value ∉ blocked.map python.str
    | _ => false
  else true

def askWhenHolds (step : Record) (answers : Dict String String) : Bool :=
  match get step "ask_when" with
  | .object rule =>
      if textOf python rule "parameter" = "" then true
      else
        match answers.get? (textOf python rule "parameter") with
        | none => false
        | some answer => if Text.strip answer = "" then false else rulePasses python rule (Text.strip answer)
  | _ => true

def clearFrom (steps : List Record) : List String → List Record → Except Fault (List String)
  | cleared, [] => .ok cleared
  | cleared, step :: rest => do
      let position ← positionOf python step
      if cleared.length < position then clearFrom steps cleared rest
      else
        let answers ← answersByName python steps cleared
        if askWhenHolds python step answers then clearFrom steps cleared rest
        else
          let place ← indexAt cleared.length (position - 1)
          clearFrom steps (cleared.set place "") rest

def clearUnreachableAnswers (steps : List Record) (args : List String) : Except Fault (List String) :=
  clearFrom python steps args steps

/-! ## The steps as a branching -/

/-- Where a step's answer stands among so many, if it stands there. -/
def placeOf (length : Nat) (step : Record) : Option Nat :=
  match positionOf python step with
  | .error _ => none
  | .ok position => if position ≤ length then (indexAt length (position - 1)).toOption else none

/-- An answer of the controlling step, as `ask_when` reads it. -/
def passes (rule : Record) (answer : String) : Bool :=
  if Text.strip (Text.strip answer) = "" then false else rulePasses python rule (Text.strip (Text.strip answer))

theorem passes_blank (rule : Record) : passes python rule "" = false := by
  rw [passes, if_pos (by decide)]

def ruleOf (step : Record) : Option Record :=
  match get step "ask_when" with
  | .object rule => if textOf python rule "parameter" = "" then none else some rule
  | _ => none

/-- A step among so many answers. -/
def stepOf (length : Nat) (step : Record) : Branches.Step String "" where
  name := if textOf python step "name" = "" then none else some (textOf python step "name")
  place := placeOf python length step
  waits := (ruleOf python step).map fun rule => (textOf python rule "parameter", passes python rule)
  not_blank := by
    intro wait waits
    obtain ⟨rule, _, rfl⟩ := Option.map_eq_some_iff.mp waits
    exact passes_blank python rule

def branching (length : Nat) (steps : List Record) : List (Branches.Step String "") := steps.map (stepOf python length)

/-- The step's position leads in front of the list. -/
def Astray (length : Nat) (step : Record) : Prop :=
  ∃ position, positionOf python step = .ok position ∧ position ≤ length ∧ indexAt length (position - 1) = .error .index

end Steps

section Refinement

variable {python : Python}

theorem indexAt_cases (length : Nat) (index : Int) :
    (∃ place, indexAt length index = .ok place) ∨ indexAt length index = .error .index := by
  unfold indexAt
  split
  · split
    · exact Or.inl ⟨_, rfl⟩
    · exact Or.inr rfl
  · split
    · exact Or.inl ⟨_, rfl⟩
    · exact Or.inr rfl

theorem placeOf_eq_some_iff {length place : Nat} {step : Record} {position : Int}
    (read : positionOf python step = .ok position) :
    placeOf python length step = some place ↔ position ≤ length ∧ indexAt length (position - 1) = .ok place := by
  simp only [placeOf, read]
  split
  · next within =>
      rcases indexAt_cases length (position - 1) with ⟨other, found⟩ | missing
      · simp [found, within, Except.toOption]
      · simp [missing, Except.toOption]
  · next beyond => simp [beyond]

theorem named_cons {blank : String} (step : Branches.Step String blank) (rest : List (Branches.Step String blank))
    (name : String) : Branches.named (step :: rest) name =
      (Branches.named rest name).or (if step.name = some name then some step else none) := by
  unfold Branches.named
  rw [List.reverse_cons, List.find?_append]
  congr 1
  by_cases same : step.name = some name
  · simp [same]
  · simp [same]

/-- The answer under a step's name, for an answer list of the right length. -/
theorem entry_stepOf {args : List String} {step : Record} {position : Int} {answer : String}
    (read : positionOf python step = .ok position) (found : answerAt args position = .ok answer) :
    Branches.entry args (stepOf python args.length step) = answer := by
  unfold answerAt at found
  unfold Branches.entry
  change ((placeOf python args.length step).bind fun place => args[place]?).getD "" = answer
  split at found
  · next within =>
      obtain ⟨place, leads, done⟩ := Execution.bind_eq_ok found
      rw [(placeOf_eq_some_iff read).mpr ⟨within, leads⟩, Option.bind_some, ← List.getD_eq_getElem?_getD]
      exact Except.ok.inj done
  · next beyond =>
      have nowhere : placeOf python args.length step = none := by
        rw [Option.eq_none_iff_forall_ne_some]
        intro place stands
        exact beyond ((placeOf_eq_some_iff read).mp stands).1
      rw [nowhere]
      exact Except.ok.inj found

theorem branching_cons (length : Nat) (step : Record) (rest : List Record) :
    branching python length (step :: rest) = stepOf python length step :: branching python length rest := rfl

/-- The answers by name are those of the last step of each name. -/
theorem get?_answersFrom {args : List String} {steps : List Record} {answered answers : Dict String String}
    (read : answersFrom python args answered steps = .ok answers) (name : String) :
    answers.get? name = ((Branches.named (branching python args.length steps) name).map fun step =>
      Text.strip (Branches.entry args step)).or (answered.get? name) := by
  induction steps generalizing answered with
  | nil =>
    obtain rfl := Except.ok.inj read
    rfl
  | cons step rest ih =>
    rw [answersFrom] at read
    rw [branching_cons, named_cons]
    split at read
    · next unnamed =>
        have other : (stepOf python args.length step).name ≠ some name := by
          simp [stepOf, unnamed]
        rw [ih read, if_neg other, Option.or_none]
    · next own =>
        obtain ⟨position, placed, read⟩ := Execution.bind_eq_ok read
        obtain ⟨answer, found, read⟩ := Execution.bind_eq_ok read
        have ownName : (stepOf python args.length step).name = some (textOf python step "name") := if_neg own
        rw [ih read, Dict.get?_set, ownName]
        cases Branches.named (branching python args.length rest) name with
        | some controller => rw [Option.some_or, Option.map_some, Option.some_or, Option.some_or]
        | none =>
          rw [Option.none_or, Option.map_none, Option.none_or]
          by_cases same : name = textOf python step "name"
          · rw [if_pos same, if_pos (congrArg some same.symm), Option.map_some, Option.some_or,
              entry_stepOf placed found]
          · rw [if_neg same, if_neg fun equal => same (Option.some.inj equal).symm, Option.map_none, Option.none_or]

/-- `ask_when_holds` is the branching's own question. -/
theorem askWhenHolds_eq {steps : List Record} {args : List String} {answers : Dict String String}
    (read : answersByName python steps args = .ok answers) (step : Record) :
    askWhenHolds python step answers =
      Branches.asked (branching python args.length steps) args (stepOf python args.length step) := by
  unfold askWhenHolds Branches.asked
  have waits : (stepOf python args.length step).waits =
      (ruleOf python step).map fun rule => (textOf python rule "parameter", passes python rule) := rfl
  rw [waits, ruleOf]
  split
  · next rule stated =>
      by_cases unnamed : textOf python rule "parameter" = ""
      · rw [if_pos unnamed, if_pos unnamed]
        rfl
      · rw [if_neg unnamed, if_neg unnamed, get?_answersFrom read, Dict.get?_empty, Option.or_none,
          Option.map_some]
        cases found : Branches.named (branching python args.length steps) (textOf python rule "parameter") with
        | none => simp only [found, Option.map_none]
        | some controller => simp only [found, Option.map_some, passes]
  · rfl

theorem lt_of_placeOf {length place : Nat} {step : Record} (stored : placeOf python length step = some place) :
    place < length := by
  unfold placeOf at stored
  split at stored
  · cases stored
  · split at stored
    · unfold indexAt at stored
      split at stored
      · split at stored
        · have same := Option.some.inj stored
          omega
        · cases stored
      · split at stored
        · have same := Option.some.inj stored
          omega
        · cases stored
    · cases stored

/-- Whether the answers can be read depends on how many there are. -/
theorem exists_answersFrom {first second : List String} (length : first.length = second.length) {steps : List Record}
    {answered answers : Dict String String} (read : answersFrom python first answered steps = .ok answers)
    (other : Dict String String) : ∃ found, answersFrom python second other steps = .ok found := by
  induction steps generalizing answered other with
  | nil => exact ⟨other, rfl⟩
  | cons step rest ih =>
    rw [answersFrom] at read ⊢
    split at read
    · next unnamed =>
        rw [if_pos unnamed]
        exact ih read other
    · next own =>
        rw [if_neg own]
        obtain ⟨position, placed, read⟩ := Execution.bind_eq_ok read
        obtain ⟨answer, found, read⟩ := Execution.bind_eq_ok read
        have there : ∃ answer, answerAt second position = .ok answer := by
          unfold answerAt at found ⊢
          rw [← length]
          split at found
          · next within =>
              obtain ⟨place, leads, _⟩ := Execution.bind_eq_ok found
              rw [if_pos within, leads]
              exact ⟨_, rfl⟩
          · next beyond =>
              rw [if_neg beyond]
              exact ⟨_, rfl⟩
        obtain ⟨answer, here⟩ := there
        rw [placed]
        change ∃ found, (answerAt second position >>= _) = .ok found
        rw [here]
        exact ih read _

/-- One step of the pass: what it needs to be read, and what it does. -/
theorem clearFrom_cons {steps rest : List Record} {step : Record} {cleared result : List String}
    (ran : clearFrom python steps cleared (step :: rest) = .ok result) :
    ∃ position, positionOf python step = .ok position ∧
      (position ≤ cleared.length → ∃ answers, answersByName python steps cleared = .ok answers) ∧
      (Astray python cleared.length step → Branches.asked (branching python cleared.length steps) cleared
        (stepOf python cleared.length step) = true) ∧
      clearFrom python steps (Branches.visit (branching python cleared.length steps) cleared
        (stepOf python cleared.length step)) rest = .ok result := by
  rw [clearFrom] at ran
  obtain ⟨position, placed, ran⟩ := Execution.bind_eq_ok ran
  refine ⟨position, placed, ?_⟩
  have place : (stepOf python cleared.length step).place = placeOf python cleared.length step := rfl
  split at ran
  · next beyond =>
      have nowhere : placeOf python cleared.length step = none := by
        rw [Option.eq_none_iff_forall_ne_some]
        intro other stands
        have within := ((placeOf_eq_some_iff placed).mp stands).1
        omega
      refine ⟨fun within => absurd within (by omega), ?_, ?_⟩
      · rintro ⟨other, read, within, -⟩
        obtain rfl := Except.ok.inj (placed.symm.trans read)
        omega
      · rw [Branches.visit, place, nowhere]
        exact ran
  · next within =>
      obtain ⟨answers, read, ran⟩ := Execution.bind_eq_ok ran
      rw [askWhenHolds_eq read] at ran
      refine ⟨fun _ => ⟨answers, read⟩, ?_⟩
      cases stands : Branches.asked (branching python cleared.length steps) cleared
          (stepOf python cleared.length step) with
      | true =>
        rw [stands] at ran
        refine ⟨fun _ => rfl, ?_⟩
        have same : Branches.visit (branching python cleared.length steps) cleared
            (stepOf python cleared.length step) = cleared := by
          unfold Branches.visit
          split
          · rfl
          · rw [if_pos stands]
        rw [same]
        exact ran
      | false =>
        rw [stands] at ran
        obtain ⟨found, leads, ran⟩ := Execution.bind_eq_ok ran
        refine ⟨?_, ?_⟩
        · rintro ⟨other, read, -, astray⟩
          obtain rfl := Except.ok.inj (placed.symm.trans read)
          rw [leads] at astray
          cases astray
        · have stored : placeOf python cleared.length step = some found :=
            (placeOf_eq_some_iff placed).mpr ⟨Int.not_lt.mp within, leads⟩
          rw [Branches.visit, place, stored]
          simp only [stands]
          exact ran

/-- What a run that returns needs of each step, and what it leaves. -/
theorem clearFrom_eq_ok {steps front rest : List Record} {args result : List String}
    (ran : clearFrom python steps (((front.map (stepOf python args.length)).foldl
      (Branches.visit (branching python args.length steps)) args)) rest = .ok result) :
    result = ((front ++ rest).map (stepOf python args.length)).foldl
        (Branches.visit (branching python args.length steps)) args ∧
      ∀ step ∈ rest, (∃ position, positionOf python step = .ok position ∧
          (position ≤ args.length → ∃ answers, answersByName python steps args = .ok answers)) ∧
        (Astray python args.length step →
          Branches.asked (branching python args.length steps) args (stepOf python args.length step) = true) := by
  induction rest generalizing front with
  | nil =>
    rw [List.append_nil]
    exact ⟨(Except.ok.inj ran).symm, fun step member => absurd member List.not_mem_nil⟩
  | cons step rest ih =>
    have after : Branches.After (branching python args.length steps) args (front.map (stepOf python args.length)) _ :=
      Branches.after_foldl _
    obtain ⟨position, placed, read, astray, later⟩ := clearFrom_cons ran
    rw [after.length] at read astray later
    have more := @ih (front ++ [step]) (by rw [List.map_append, List.foldl_append]; exact later)
    rw [List.append_assoc, List.singleton_append] at more
    refine ⟨more.1, List.forall_mem_cons.mpr ⟨⟨⟨position, placed, fun within => ?_⟩, fun lost => ?_⟩, more.2⟩⟩
    · obtain ⟨answers, found⟩ := read within
      exact exists_answersFrom after.length found Dict.empty
    · by_contra silent
      have still := (after.asked_eq_false_iff (stepOf python args.length step)).mpr
        (Or.inl (Bool.not_eq_true _ ▸ silent))
      rw [astray lost] at still
      cases still

/-- A pass over entries that stand returns them, where no step without a place is out of the branch. -/
theorem clearFrom_eq_self_iff {steps rest : List Record} {entries : List String}
    (stands : ∀ step ∈ steps, ∀ place, placeOf python entries.length step = some place → ∀ held,
      entries[place]? = some held → held ≠ "" →
        Branches.asked (branching python entries.length steps) entries (stepOf python entries.length step) = true)
    (inside : ∀ step ∈ rest, step ∈ steps)
    (read : ∀ step ∈ rest, ∃ position, positionOf python step = .ok position ∧
      (position ≤ entries.length → ∃ answers, answersByName python steps entries = .ok answers)) :
    clearFrom python steps entries rest = .ok entries ↔ ∀ step ∈ rest, Astray python entries.length step →
      Branches.asked (branching python entries.length steps) entries (stepOf python entries.length step) = true := by
  induction rest with
  | nil => simp [clearFrom]
  | cons step rest ih =>
    obtain ⟨⟨position, placed, answered⟩, read⟩ := List.forall_mem_cons.mp read
    have later := ih (fun other member => inside other (List.mem_cons_of_mem step member)) read
    rw [List.forall_mem_cons, ← later, clearFrom, placed]
    change (if (entries.length : Int) < position then clearFrom python steps entries rest else _) = _ ↔ _
    split
    · next beyond =>
        rw [iff_and_self]
        rintro - ⟨other, again, within, -⟩
        obtain rfl := Except.ok.inj (placed.symm.trans again)
        omega
    · next within =>
        obtain ⟨answers, found⟩ := answered (Int.not_lt.mp within)
        rw [found]
        change (if askWhenHolds python step answers = true then clearFrom python steps entries rest
          else indexAt entries.length (position - 1) >>= _) = _ ↔ _
        rw [askWhenHolds_eq found]
        cases called : Branches.asked (branching python entries.length steps) entries
            (stepOf python entries.length step) with
        | true => simp
        | false =>
          rw [if_neg Bool.false_ne_true]
          rcases indexAt_cases entries.length (position - 1) with ⟨place, leads⟩ | lost
          · have stored : placeOf python entries.length step = some place :=
              (placeOf_eq_some_iff placed).mpr ⟨Int.not_lt.mp within, leads⟩
            have same : entries.set place "" = entries := by
              refine Branches.set_blank fun held standing => ?_
              by_contra inked
              have asked := stands step (inside step List.mem_cons_self) place stored held standing inked
              rw [called] at asked
              cases asked
            rw [leads]
            change clearFrom python steps (entries.set place "") rest = _ ↔ _
            rw [same, iff_and_self]
            rintro - ⟨other, again, -, astray⟩
            obtain rfl := Except.ok.inj (placed.symm.trans again)
            rw [leads] at astray
            cases astray
          · rw [lost]
            refine iff_of_false (fun raised => by cases raised) fun both => ?_
            exact absurd (both.1 ⟨position, placed, Int.not_lt.mp within, lost⟩) Bool.false_ne_true

end Refinement

/-! ## When it is settled -/

section Settled

variable (python : Python)

/-- Every answer that is not empty is one whose `ask_when` holds among the answers left, an answer of the
branch is unchanged, and clearing again changes nothing. -/
structure Settled (steps : List Record) (args result : List String) : Prop where
  asked : ∀ step ∈ steps, ∀ place, placeOf python result.length step = some place → result[place]? ≠ some "" →
    ∃ answers, answersByName python steps result = .ok answers ∧ askWhenHolds python step answers = true
  kept : ∀ step ∈ steps,
    ¬ Branches.Unreached (branching python args.length steps) args (stepOf python args.length step) →
      ∀ place, placeOf python args.length step = some place → result[place]? = args[place]?
  again : clearUnreachableAnswers python steps result = .ok result

/-- An answered step is out of the branch exactly when the pass blanks its answer, and no step whose position
leads in front of the list waits for an answer that is blanked. -/
structure InOrder (steps : List Record) (args : List String) : Prop where
  ordered : Branches.InOrder (branching python args.length steps) args
  astray : ∀ step ∈ steps, Astray python args.length step → ∀ controller awaited,
    Branches.Awaits (branching python args.length steps) (stepOf python args.length step) controller →
      controller.place = some awaited →
        ¬ Branches.Blanked (branching python args.length steps) args (branching python args.length steps) awaited

variable {python}

/-- What is left is settled exactly when the steps stand in order. -/
theorem clear_unreachable_settled_iff {steps : List Record} {args result : List String}
    (ran : clearUnreachableAnswers python steps args = .ok result) :
    Settled python steps args result ↔ InOrder python steps args := by
  obtain ⟨left, needed⟩ := @clearFrom_eq_ok python steps [] steps args result ran
  rw [List.nil_append] at left
  have cleared : result = Branches.clear (branching python args.length steps) args := left
  have after : Branches.After (branching python args.length steps) args (branching python args.length steps) _ :=
    Branches.after_clear
  rw [← cleared] at after
  have owns : ∀ step ∈ steps, stepOf python args.length step ∈ branching python args.length steps :=
    fun step member => List.mem_map_of_mem member
  have readable : ∀ step ∈ steps, ∃ position, positionOf python step = .ok position ∧
      (position ≤ result.length → ∃ answers, answersByName python steps result = .ok answers) := by
    intro step member
    obtain ⟨⟨position, placed, read⟩, -⟩ := needed step member
    refine ⟨position, placed, fun within => ?_⟩
    obtain ⟨answers, found⟩ := read (after.length ▸ within)
    exact exists_answersFrom after.length.symm found Dict.empty
  have asks : ∀ step ∈ steps, ∀ place, placeOf python result.length step = some place →
      ((∃ answers, answersByName python steps result = .ok answers ∧ askWhenHolds python step answers = true) ↔
        Branches.asked (branching python args.length steps) result (stepOf python args.length step) = true) := by
    intro step member place stored
    obtain ⟨position, placed, read⟩ := readable step member
    obtain ⟨answers, found⟩ := read ((placeOf_eq_some_iff placed).mp stored).1
    have same := askWhenHolds_eq found step
    rw [after.length] at same
    constructor
    · rintro ⟨other, again, holds⟩
      obtain rfl := Except.ok.inj (found.symm.trans again)
      rw [← same, holds]
    · intro asked
      exact ⟨answers, found, by rw [same, asked]⟩
  have again : (∀ step ∈ steps, ∀ place, placeOf python result.length step = some place → ∀ held,
      result[place]? = some held → held ≠ "" →
        Branches.asked (branching python args.length steps) result (stepOf python args.length step) = true) →
      (clearUnreachableAnswers python steps result = .ok result ↔ ∀ step ∈ steps, Astray python args.length step →
        Branches.asked (branching python args.length steps) result (stepOf python args.length step) = true) := by
    intro stands
    have iterated := @clearFrom_eq_self_iff python steps steps result
    rw [after.length] at iterated
    rw [after.length] at stands readable
    exact iterated stands (fun _ member => member) readable
  have strays : (∀ step ∈ steps, Astray python args.length step →
      Branches.asked (branching python args.length steps) result (stepOf python args.length step) = true) ↔
      ∀ step ∈ steps, Astray python args.length step → ∀ controller awaited,
        Branches.Awaits (branching python args.length steps) (stepOf python args.length step) controller →
          controller.place = some awaited →
            ¬ Branches.Blanked (branching python args.length steps) args (branching python args.length steps) awaited := by
    refine forall₂_congr fun step member => forall_congr' fun lost => ?_
    have first := (needed step member).2 lost
    rw [← Bool.not_eq_false, after.asked_eq_false_iff, first]
    simp only [Bool.true_eq_false, false_or, not_exists, not_and]
  have general : Branches.Settled (branching python args.length steps) args _ ↔
      Branches.InOrder (branching python args.length steps) args := Branches.settled_iff
  rw [← cleared] at general
  constructor
  · intro settled
    have stands : ∀ step ∈ steps, ∀ place, placeOf python result.length step = some place → ∀ held,
        result[place]? = some held → held ≠ "" →
          Branches.asked (branching python args.length steps) result (stepOf python args.length step) = true :=
      fun step member place stored held found inked =>
        (asks step member place stored).mp (settled.asked step member place stored (by rw [found]; simpa using inked))
    refine ⟨general.mp ⟨?_, ?_, ?_⟩, strays.mp ((again stands).mp settled.again)⟩
    · intro own member place stored held found inked
      obtain ⟨step, inside, rfl⟩ := List.mem_map.mp member
      exact stands step inside place (after.length ▸ stored) held found inked
    · intro own member reached place stored
      obtain ⟨step, inside, rfl⟩ := List.mem_map.mp member
      exact settled.kept step inside reached place stored
    · refine Branches.clear_eq_self fun own member place stored held found inked => ?_
      obtain ⟨step, inside, rfl⟩ := List.mem_map.mp member
      exact stands step inside place (after.length ▸ stored) held found inked
  · intro ordered
    have settled := general.mpr ordered.ordered
    have stands : ∀ step ∈ steps, ∀ place, placeOf python result.length step = some place → ∀ held,
        result[place]? = some held → held ≠ "" →
          Branches.asked (branching python args.length steps) result (stepOf python args.length step) = true :=
      fun step member place stored held found inked =>
        settled.asked _ (owns step member) place (after.length ▸ stored) held found inked
    refine ⟨fun step member place stored inked => (asks step member place stored).mpr ?_,
      fun step member reached place stored => settled.kept _ (owns step member) reached place stored,
      (again stands).mpr (strays.mpr ordered.astray)⟩
    have within := lt_of_placeOf stored
    rw [List.getElem?_eq_getElem within, ne_eq, Option.some_inj] at inked
    exact stands step member place stored _ (List.getElem?_eq_getElem within) inked

end Settled

/-- `tail` waits for `middle`, which waits for `head`, and is listed in front of it. -/
def lateBranch : List Record :=
  [[("name", .string "tail"), ("position", .int 3),
      ("ask_when", .object [("parameter", .string "middle"), ("equals", .string "x")])],
    [("name", .string "middle"), ("position", .int 2),
      ("ask_when", .object [("parameter", .string "head"), ("equals", .string "yes")])],
    [("name", .string "head"), ("position", .int 1)]]

theorem lateBranch_run :
    clearUnreachableAnswers asciiPython lateBranch ["no", "x", "kept"] = .ok ["no", "", "kept"] := by
  decide +kernel

/-- The answer at the end of the chain stays when the one it waits for is blanked. -/
theorem late_branch_unsettled : ¬ ∀ steps args result, clearUnreachableAnswers asciiPython steps args = .ok result →
    Settled asciiPython steps args result := by
  intro settles
  have again := (settles _ _ _ lateBranch_run).again
  have cleared : clearUnreachableAnswers asciiPython lateBranch ["no", "", "kept"] = .ok ["no", "", ""] := by
    decide +kernel
  rw [cleared] at again
  exact absurd (Except.ok.inj again) (by decide)

theorem late_branch_settled_iff :
    Settled asciiPython lateBranch ["no", "x", "kept"] ["no", "", "kept"] ↔
      InOrder asciiPython lateBranch ["no", "x", "kept"] :=
  clear_unreachable_settled_iff lateBranch_run

end DbaBrain.Lib.WorkflowSteps
