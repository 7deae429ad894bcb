import DbaBrain.Foundation.Execution

/-!
# Work taken from a listing that may be stale

Workers list the units due, and take them one by one: each asks whether the
unit was started since its listing, stamps its start, claims, and finishes.
Between the listing and the claim other workers take units too.
-/

namespace DbaBrain.Foundation.StaleListing

open Execution

/-- A log of runs: its rows in the order they were inserted, and the calls workers make. -/
structure RunLog (τ ρ υ θ ι α β : Type) [LE θ] where
  rows : τ → List ρ
  unit : ρ → υ
  startedAt : ρ → Option θ
  isOpen : ρ → Bool
  startedSince : τ → υ → θ → Bool
  claim : τ → α → υ → θ → Option (τ × ι)
  close : τ → ι → β → τ
  startedSince_iff : ∀ log u since, startedSince log u since = true ↔
    ∃ row ∈ rows log, unit row = u ∧ ∃ start, startedAt row = some start ∧ since ≤ start
  claim_rows : ∀ log details u start next run, claim log details u start = some (next, run) →
    ∃ row, rows next = rows log ++ [row] ∧ unit row = u ∧ startedAt row = some start
  close_rows : ∀ log run outcome, ∃ change, rows (close log run outcome) = (rows log).map change ∧
    ∀ row, unit (change row) = unit row ∧ startedAt (change row) = startedAt row

/-- What a worker's listing rests on: when it was made, and how many rows the log had. -/
structure Listing (θ : Type) where
  listedAt : θ
  readAt : Nat
  deriving DecidableEq

/-- How far a worker has come; `askedAt` is how many rows the log had when it asked. -/
inductive Worker (υ θ ι : Type)
  | idle
  | noted (listedAt : θ)
  | working (listing : Listing θ) (due : List υ)
  | asked (listing : Listing θ) (unit : υ) (due : List υ) (askedAt : Nat)
  | stamped (listing : Listing θ) (unit : υ) (due : List υ) (askedAt : Nat) (startedAt : θ)
  | running (listing : Listing θ) (unit : υ) (due : List υ) (run : ι)
  deriving DecidableEq

inductive Statement (υ θ α β : Type)
  | note (now : θ)
  | list (due : List υ)
  | ask
  | stamp (now : θ)
  | claim (details : α)
  | finish (outcome : β)

/-- The log, who inserted each of its rows, and the workers. -/
structure System (τ υ θ ι : Type) where
  log : τ
  insertedBy : List (Option Nat)
  workers : Nat → Worker υ θ ι

variable {τ ρ υ θ ι α β : Type} [LE θ] (runLog : RunLog τ ρ υ θ ι α β)

/-- A log no worker has listed from yet. -/
def System.ofLog (log : τ) : System τ υ θ ι where
  log := log
  insertedBy := (runLog.rows log).map fun _ => none
  workers := fun _ => .idle

def workerStep (log : τ) (insertedBy : List (Option Nat)) (self : Nat) :
    Worker υ θ ι → Statement υ θ α β → Option (τ × List (Option Nat) × Worker υ θ ι)
  | .idle, .note now => some (log, insertedBy, .noted now)
  | .noted listedAt, .list due => some (log, insertedBy, .working ⟨listedAt, (runLog.rows log).length⟩ due)
  | .working listing (unit :: due), .ask =>
      if runLog.startedSince log unit listing.listedAt then
        some (log, insertedBy, .working listing due)
      else
        some (log, insertedBy, .asked listing unit due (runLog.rows log).length)
  | .asked listing unit due askedAt, .stamp now => some (log, insertedBy, .stamped listing unit due askedAt now)
  | .stamped listing unit due _ startedAt, .claim details =>
      match runLog.claim log details unit startedAt with
      | none => some (log, insertedBy, .working listing due)
      | some (next, run) => some (next, insertedBy ++ [some self], .running listing unit due run)
  | .running listing _ due run, .finish outcome => some (runLog.close log run outcome, insertedBy, .working listing due)
  | _, _ => none

def step (system : System τ υ θ ι) (label : Nat × Statement υ θ α β) : Option (System τ υ θ ι) :=
  (workerStep runLog system.log system.insertedBy label.1 (system.workers label.1) label.2).map fun result =>
    { log := result.1, insertedBy := result.2.1, workers := Function.update system.workers label.1 result.2.2 }

/-- Another worker inserted, after the listing was read, the row at `place`, and its run is over. -/
structure RanSince (system : System τ υ θ ι) (asker : Nat) (listing : Listing θ) (unit : υ) (place : Nat)
    (row : ρ) : Prop where
  found : (runLog.rows system.log)[place]? = some row
  later : listing.readAt ≤ place
  another : ∃ other, system.insertedBy[place]? = some (some other) ∧ other ≠ asker
  same : runLog.unit row = unit
  ended : runLog.isOpen row = false

def Inserts (system : System τ υ θ ι) (label : Nat × Statement υ θ α β) (listing : Listing θ) (unit : υ)
    (askedAt : Nat) : Prop :=
  ∃ due startedAt details, system.workers label.1 = .stamped listing unit due askedAt startedAt ∧
    label.2 = .claim details ∧ (runLog.claim system.log details unit startedAt).isSome = true

/-- No worker inserts a run of a unit that another has run to its end since the first one's listing. -/
def RunsOnce (system : System τ υ θ ι) (label : Nat × Statement υ θ α β) (_ : System τ υ θ ι) : Prop :=
  ∀ listing unit askedAt, Inserts runLog system label listing unit askedAt →
    ∀ place row, ¬ RanSince runLog system label.1 listing unit place row

/-- Each run another worker has ended since the listing was in the log when the worker asked, with a
start the question covers. -/
def InSight (system : System τ υ θ ι) (label : Nat × Statement υ θ α β) (_ : System τ υ θ ι) : Prop :=
  ∀ listing unit askedAt, Inserts runLog system label listing unit askedAt →
    ∀ place row, RanSince runLog system label.1 listing unit place row →
      place < askedAt ∧ ∃ start, runLog.startedAt row = some start ∧ listing.listedAt ≤ start

/-! ## The answer a worker was given stays true -/

/-- No row of the unit among the first `askedAt` started since the listing. -/
def NoneAmong (log : τ) (listing : Listing θ) (unit : υ) (askedAt : Nat) : Prop :=
  askedAt ≤ (runLog.rows log).length ∧
    ∀ place row, place < askedAt → (runLog.rows log)[place]? = some row → runLog.unit row = unit →
      ∀ start, runLog.startedAt row = some start → ¬ listing.listedAt ≤ start

/-- What the question of a worker that is about to claim was answered. -/
def Answered (log : τ) : Worker υ θ ι → Prop
  | .asked listing unit _ askedAt => NoneAmong runLog log listing unit askedAt
  | .stamped listing unit _ askedAt _ => NoneAmong runLog log listing unit askedAt
  | _ => True

variable {runLog}
variable {log next : τ} {listing : Listing θ} {unit : υ}
variable {askedAt : Nat} {worker : Worker υ θ ι}

theorem NoneAmong.claimed (none_among : NoneAmong runLog log listing unit askedAt) {details : α} {u : υ} {startedAt : θ}
    {run : ι} (claimed : runLog.claim log details u startedAt = some (next, run)) :
    NoneAmong runLog next listing unit askedAt := by
  obtain ⟨bound, before⟩ := none_among
  obtain ⟨row, rows, _, _⟩ := runLog.claim_rows _ _ _ _ _ _ claimed
  constructor
  · rw [rows, List.length_append]
    exact bound.trans (Nat.le_add_right _ _)
  · intro place other early found
    rw [rows, List.getElem?_append_left (early.trans_le bound)] at found
    exact before place other early found

theorem NoneAmong.closed (none_among : NoneAmong runLog log listing unit askedAt) (run : ι) (outcome : β) :
    NoneAmong runLog (runLog.close log run outcome) listing unit askedAt := by
  obtain ⟨bound, before⟩ := none_among
  obtain ⟨change, rows, kept⟩ := runLog.close_rows log run outcome
  constructor
  · rwa [rows, List.length_map]
  · intro place other early found same start started
    rw [rows, List.getElem?_map, Option.map_eq_some_iff] at found
    obtain ⟨row, present, rfl⟩ := found
    obtain ⟨sameUnit, sameStart⟩ := kept row
    exact before place row early present (sameUnit.symm.trans same) start (sameStart.symm.trans started)

theorem NoneAmong.of_asked (refused : ¬ runLog.startedSince log unit listing.listedAt = true) :
    NoneAmong runLog log listing unit (runLog.rows log).length := by
  refine ⟨le_refl _, ?_⟩
  intro place row _ found same start started covers
  exact refused ((runLog.startedSince_iff _ _ _).mpr
    ⟨row, List.mem_of_getElem? found, same, start, started, covers⟩)

/-- A statement leaves the log and a true answer, claims a row, or closes one. -/
theorem workerStep_cases {insertedBy after : List (Option Nat)} {self : Nat} {later : Worker υ θ ι}
    {statement : Statement υ θ α β} (answered : Answered runLog log worker)
    (stepped : workerStep runLog log insertedBy self worker statement = some (next, after, later)) :
    Answered runLog next later ∧
      (next = log ∨ (∃ details u startedAt run, runLog.claim log details u startedAt = some (next, run)) ∨
        ∃ run outcome, next = runLog.close log run outcome) := by
  fun_cases workerStep runLog log insertedBy self worker statement with
  | case3 listing unit due asked =>
    rw [workerStep, if_pos asked] at stepped
    cases stepped
    exact ⟨trivial, Or.inl rfl⟩
  | case4 listing unit due asked =>
    rw [workerStep, if_neg asked] at stepped
    cases stepped
    exact ⟨NoneAmong.of_asked asked, Or.inl rfl⟩
  | case6 listing unit due askedAt startedAt details refused =>
    rw [workerStep, refused] at stepped
    cases stepped
    exact ⟨trivial, Or.inl rfl⟩
  | case7 listing unit due askedAt startedAt details inserted run claimed =>
    rw [workerStep, claimed] at stepped
    cases stepped
    exact ⟨trivial, Or.inr (Or.inl ⟨details, unit, startedAt, run, claimed⟩)⟩
  | case8 listing unit due run outcome =>
    cases stepped
    exact ⟨trivial, Or.inr (Or.inr ⟨run, outcome, rfl⟩)⟩
  | case5 =>
    cases stepped
    exact ⟨answered, Or.inl rfl⟩
  | case1 | case2 =>
    cases stepped
    exact ⟨trivial, Or.inl rfl⟩
  | case9 =>
    rw [workerStep] at stepped
    · cases stepped
    all_goals assumption

theorem answered_of_log (answered : Answered runLog log worker)
    (changed : next = log ∨ (∃ details u startedAt run, runLog.claim log details u startedAt = some (next, run)) ∨
      ∃ run outcome, next = runLog.close log run outcome) : Answered runLog next worker := by
  rcases changed with rfl | ⟨details, u, startedAt, run, claimed⟩ | ⟨run, outcome, rfl⟩
  · exact answered
  · cases worker with
    | asked => exact NoneAmong.claimed answered claimed
    | stamped => exact NoneAmong.claimed answered claimed
    | _ => trivial
  · cases worker with
    | asked => exact NoneAmong.closed answered run outcome
    | stamped => exact NoneAmong.closed answered run outcome
    | _ => trivial

theorem answered_step (system : System τ υ θ ι) (label : Nat × Statement υ θ α β) (next : System τ υ θ ι)
    (stepped : step runLog system label = some next)
    (answered : ∀ self, Answered runLog system.log (system.workers self)) :
    ∀ self, Answered runLog next.log (next.workers self) := by
  simp only [step, Option.map_eq_some_iff] at stepped
  obtain ⟨⟨log, insertedBy, worker⟩, ran, rfl⟩ := stepped
  obtain ⟨own, changed⟩ := workerStep_cases (answered label.1) ran
  intro self
  rcases eq_or_ne self label.1 with rfl | different
  · simpa using own
  · simpa [different] using answered_of_log (answered self) changed

/-- Every unit is run once a listing exactly in the runs in which each run another worker has ended
since the listing was in sight of the question. -/
theorem runsOnce_iff_inSight (log : τ) (labels : List (Nat × Statement υ θ α β)) :
    Every (step runLog) (RunsOnce runLog) (System.ofLog runLog log) labels ↔
      Every (step runLog) (InSight runLog) (System.ofLog runLog log) labels := by
  have initial : ∀ self, Answered runLog (System.ofLog runLog log).log ((System.ofLog runLog log).workers self) :=
    fun _ => trivial
  constructor
  · apply Every.imp
    intro system label next _ once listing unit askedAt inserts place row since
    exact absurd since (once listing unit askedAt inserts place row)
  · intro inSight
    refine Every.mono (fun system label next stepped _ => answered_step system label next stepped) ?_ initial inSight
    intro system label next _ answered sight listing unit askedAt inserts place row since
    obtain ⟨early, start, started, covers⟩ := sight listing unit askedAt inserts place row since
    obtain ⟨due, startedAt, details, stamped, _, _⟩ := inserts
    have own := answered label.1
    rw [stamped] at own
    exact own.2 place row early since.found since.same start started covers

end DbaBrain.Foundation.StaleListing
