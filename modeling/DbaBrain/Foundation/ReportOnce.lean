import DbaBrain.Foundation.Execution

/-!
# Open items reported by workers

A worker fetches the open items and goes through them: it skips one, or reports
an outcome of it and records that outcome after.  Nothing but the fetch looks
at whether an item is open.
-/

namespace DbaBrain.Foundation.ReportOnce

open Execution

/-- How far a worker is: the items it fetched and has not come to, and the one it has reported and not recorded. -/
inductive Phase (κ ω : Type)
  | idle
  | holding (items : List κ)
  | reported (item : κ) (outcome : ω) (rest : List κ)

namespace Phase

variable {κ ω : Type}

/-- The items the worker may still record. -/
def held : Phase κ ω → List κ
  | .idle => []
  | .holding items => items
  | .reported item _ rest => item :: rest

/-- The items it may still report. -/
def ahead : Phase κ ω → List κ
  | .idle => []
  | .holding items => items
  | .reported _ _ rest => rest

/-- The report that it has still to record. -/
def report : Phase κ ω → Option (κ × ω)
  | .idle => none
  | .holding _ => none
  | .reported item outcome _ => some (item, outcome)

variable {phase : Phase κ ω} {item : κ}

theorem mem_held_of_ahead (member : item ∈ phase.ahead) : item ∈ phase.held := by
  cases phase with
  | idle => exact member
  | holding items => exact member
  | reported other outcome rest => exact List.mem_cons_of_mem other member

theorem mem_held_of_report {outcome : ω} (told : phase.report = some (item, outcome)) : item ∈ phase.held := by
  cases phase with
  | idle => cases told
  | holding items => cases told
  | reported other said rest =>
    obtain ⟨rfl, rfl⟩ := Prod.mk.inj (Option.some.inj told)
    exact List.mem_cons_self

end Phase

/-- What is known of the items (an open one has no outcome), the reports that were made, and the workers. -/
structure State (κ ω : Type) (n : Nat) where
  status : κ → Option (Option ω)
  reports : List (κ × ω)
  worker : Fin n → Phase κ ω

inductive Step (κ ω : Type) (n : Nat)
  | opened (item : κ)
  | fetched (worker : Fin n) (items : List κ)
  | skipped (worker : Fin n)
  | reported (worker : Fin n) (outcome : ω)
  | recorded (worker : Fin n)
  | stopped (worker : Fin n)

section System

variable {κ ω : Type} {n : Nat}

def State.start (κ ω : Type) (n : Nat) : State κ ω n := ⟨fun _ => none, [], fun _ => .idle⟩

def State.moves (s : State κ ω n) (worker : Fin n) (phase : Phase κ ω) : State κ ω n :=
  { s with worker := Function.update s.worker worker phase }

def Enabled [DecidableEq κ] (s : State κ ω n) : Step κ ω n → State κ ω n → Prop
  | .opened item, next => s.status item = none ∧ next = { s with status := Function.update s.status item (some none) }
  | .fetched worker items, next => s.worker worker = .idle ∧ items.Nodup ∧ (∀ item ∈ items, s.status item = some none) ∧
      next = s.moves worker (.holding items)
  | .skipped worker, next => ∃ item rest, s.worker worker = .holding (item :: rest) ∧ next = s.moves worker (.holding rest)
  | .reported worker outcome, next => ∃ item rest, s.worker worker = .holding (item :: rest) ∧
      next = { s.moves worker (.reported item outcome rest) with reports := s.reports ++ [(item, outcome)] }
  | .recorded worker, next => ∃ item outcome rest, s.worker worker = .reported item outcome rest ∧
      next = { s.moves worker (.holding rest) with status := Function.update s.status item (some (some outcome)) }
  | .stopped worker, next => next = s.moves worker .idle

/-- No worker fetches what another may still record, and none stops between a report and its record. -/
def Apart (s : State κ ω n) : Step κ ω n → Prop
  | .fetched worker items => ∀ other, other ≠ worker → ∀ item ∈ items, item ∉ (s.worker other).held
  | .stopped worker => (s.worker worker).report = none
  | _ => True

structure Reported (s : State κ ω n) : Prop where
  once : (s.reports.map Prod.fst).Nodup
  told : ∀ item outcome, s.status item = some (some outcome) → (item, outcome) ∈ s.reports

def OutcomesStay (s next : State κ ω n) : Prop :=
  ∀ item outcome, s.status item = some (some outcome) → next.status item = some (some outcome)

/-- What a worker knows of the items. -/
structure Fits (status : κ → Option (Option ω)) (reports : List (κ × ω)) (phase : Phase κ ω) : Prop where
  stillOpen : ∀ item ∈ phase.held, status item = some none
  unreported : ∀ item ∈ phase.ahead, item ∉ reports.map Prod.fst
  pending : ∀ item outcome, phase.report = some (item, outcome) → (item, outcome) ∈ reports
  each : phase.held.Nodup

structure Inv (s : State κ ω n) : Prop extends Reported s where
  fits : ∀ worker, Fits s.status s.reports (s.worker worker)
  settled : ∀ item outcome, (item, outcome) ∈ s.reports →
    s.status item = some (some outcome) ∨ ∃ worker, (s.worker worker).report = some (item, outcome)
  apart : ∀ worker other, other ≠ worker → ∀ item ∈ (s.worker worker).held, item ∉ (s.worker other).held

/-! ## What every run keeps -/

variable {s next : State κ ω n} {step : Step κ ω n} {worker other : Fin n} {phase : Phase κ ω}
  {status : κ → Option (Option ω)} {reports : List (κ × ω)}

theorem inv_start : Inv (State.start κ ω n) where
  once := List.nodup_nil
  told _ _ known := by cases known
  fits _ := ⟨fun _ member => absurd member List.not_mem_nil, fun _ member => absurd member List.not_mem_nil,
    fun _ _ told => by (cases told), List.nodup_nil⟩
  settled _ _ member := absurd member List.not_mem_nil
  apart _ _ _ _ member := absurd member List.not_mem_nil

theorem moves_self : (s.moves worker phase).worker worker = phase := Function.update_self ..

theorem moves_of_ne (different : other ≠ worker) : (s.moves worker phase).worker other = s.worker other :=
  Function.update_of_ne different ..

theorem fits_moves (own : Fits status reports phase)
    (others : ∀ other, other ≠ worker → Fits status reports (s.worker other)) (other : Fin n) :
    Fits status reports ((s.moves worker phase).worker other) := by
  by_cases same : other = worker
  · rw [same, moves_self]
    exact own
  · rw [moves_of_ne same]
    exact others other same

theorem apart_moves (inv : Inv s) (fits : ∀ other, other ≠ worker → ∀ item ∈ phase.held, item ∉ (s.worker other).held)
    (first second : Fin n) (different : second ≠ first) (item : κ)
    (member : item ∈ ((s.moves worker phase).worker first).held) :
    item ∉ ((s.moves worker phase).worker second).held := by
  by_cases isFirst : first = worker
  · rw [isFirst, moves_self] at member
    rw [isFirst] at different
    rw [moves_of_ne different]
    exact fits second different item member
  · rw [moves_of_ne isFirst] at member
    by_cases isSecond : second = worker
    · rw [isSecond, moves_self]
      exact fun there => fits first isFirst item there member
    · rw [moves_of_ne isSecond]
      exact inv.apart first second different item member

/-- A report is known as before, or still to be recorded by whoever had to, when that is not the one who moves. -/
theorem settled_moves (inv : Inv s) (quiet : (s.worker worker).report = none) (item : κ) (outcome : ω)
    (member : (item, outcome) ∈ s.reports) : s.status item = some (some outcome) ∨
      ∃ reporter, ((s.moves worker phase).worker reporter).report = some (item, outcome) := by
  refine (inv.settled item outcome member).imp id ?_
  rintro ⟨reporter, told⟩
  have different : reporter ≠ worker := by
    rintro rfl
    rw [quiet] at told
    cases told
  exact ⟨reporter, by rw [moves_of_ne different]; exact told⟩

/-- A worker without a report that comes to hold less. -/
theorem inv_shrink (inv : Inv s) (quiet : (s.worker worker).report = none) (silent : phase.report = none)
    (less : phase.held.Sublist (s.worker worker).held) (fewer : ∀ item ∈ phase.ahead, item ∈ (s.worker worker).ahead) :
    Inv (s.moves worker phase) where
  once := inv.once
  told := inv.told
  fits := by
    have before := inv.fits worker
    refine fits_moves ⟨?_, ?_, ?_, before.each.sublist less⟩ fun other _ => inv.fits other
    · exact fun item member => before.stillOpen item (less.subset member)
    · exact fun item member => before.unreported item (fewer item member)
    · intro item outcome told
      rw [silent] at told
      cases told
  settled := settled_moves inv quiet
  apart := apart_moves inv fun other different item member =>
    inv.apart worker other different item (less.subset member)

theorem inv_fetched (inv : Inv s) {items : List κ} (idle : s.worker worker = .idle) (once : items.Nodup)
    (isOpen : ∀ item ∈ items, s.status item = some none)
    (apart : ∀ other, other ≠ worker → ∀ item ∈ items, item ∉ (s.worker other).held) :
    Inv (s.moves worker (.holding items)) where
  once := inv.once
  told := inv.told
  fits := by
    refine fits_moves ⟨isOpen, ?_, fun item outcome told => by (cases told), once⟩ fun other _ => inv.fits other
    intro item member reported
    obtain ⟨⟨_, outcome⟩, among, rfl⟩ := List.mem_map.mp reported
    rcases inv.settled _ outcome among with final | ⟨reporter, told⟩
    · have stillOpen := isOpen _ member
      rw [final] at stillOpen
      cases stillOpen
    · by_cases own : reporter = worker
      · rw [own, idle] at told
        cases told
      · exact apart reporter own _ member (Phase.mem_held_of_report told)
  settled := settled_moves inv (by rw [idle]; rfl)
  apart := apart_moves inv apart

variable {item : κ}
variable {rest : List κ}

theorem inv_reported (inv : Inv s) (holds : s.worker worker = .holding (item :: rest)) (outcome : ω) :
    Inv { s.moves worker (.reported item outcome rest) with reports := s.reports ++ [(item, outcome)] } := by
  have before := inv.fits worker
  rw [holds] at before
  have each := List.nodup_cons.mp before.each
  have held : (s.worker worker).held = item :: rest := by rw [holds]; rfl
  have fresh : item ∉ s.reports.map Prod.fst := before.unreported item List.mem_cons_self
  have after : ∀ {other : κ}, other ≠ item → other ∉ s.reports.map Prod.fst →
      other ∉ (s.reports ++ [(item, outcome)]).map Prod.fst := by
    intro other different notOld
    rw [List.map_append, List.mem_append, not_or]
    exact ⟨notOld, fun now => different (List.mem_singleton.mp now)⟩
  refine ⟨⟨?_, ?_⟩, ?_, ?_, ?_⟩
  · dsimp only
    rw [List.map_append]
    exact List.Nodup.append inv.once (List.nodup_singleton _) (List.disjoint_singleton.mpr fresh)
  · exact fun other said known => List.mem_append_left _ (inv.told other said known)
  · refine fits_moves ⟨before.stillOpen, ?_, ?_, before.each⟩ ?_
    · intro other member
      refine after ?_ (before.unreported other (List.mem_cons_of_mem _ member))
      rintro rfl
      exact each.1 member
    · intro other said told
      obtain ⟨rfl, rfl⟩ := Prod.mk.inj (Option.some.inj told)
      exact List.mem_append_right _ List.mem_cons_self
    · intro reporter different
      refine ⟨(inv.fits reporter).stillOpen, ?_, ?_, (inv.fits reporter).each⟩
      · intro other member
        refine after ?_ ((inv.fits reporter).unreported other member)
        rintro rfl
        exact inv.apart worker reporter different other (by rw [held]; exact List.mem_cons_self)
          (Phase.mem_held_of_ahead member)
      · exact fun other said told => List.mem_append_left _ ((inv.fits reporter).pending other said told)
  · intro other said member
    rcases List.mem_append.mp member with old | now
    · exact settled_moves inv (by rw [holds]; rfl) other said old
    · obtain ⟨rfl, rfl⟩ := Prod.mk.inj (List.mem_singleton.mp now)
      exact Or.inr ⟨worker, congrArg Phase.report moves_self⟩
  · refine apart_moves inv fun other different item' member => ?_
    exact inv.apart worker other different item' (by rw [held]; exact member)

variable [DecidableEq κ]

theorem inv_recorded (inv : Inv s) {outcome : ω} (holds : s.worker worker = .reported item outcome rest) :
    Inv { s.moves worker (.holding rest) with status := Function.update s.status item (some (some outcome)) } := by
  have before := inv.fits worker
  rw [holds] at before
  have each := List.nodup_cons.mp before.each
  have held : (s.worker worker).held = item :: rest := by rw [holds]; rfl
  have stays : ∀ {other : κ} {known : Option (Option ω)}, other ≠ item → s.status other = known →
      Function.update s.status item (some (some outcome)) other = known := by
    intro other known different found
    rw [Function.update_of_ne different]
    exact found
  refine ⟨⟨inv.once, ?_⟩, ?_, ?_, ?_⟩
  · intro other said known
    dsimp only at known
    by_cases same : other = item
    · rw [same, Function.update_self] at known
      rw [same, ← Option.some.inj (Option.some.inj known)]
      exact before.pending item outcome rfl
    · rw [Function.update_of_ne same] at known
      exact inv.told other said known
  · refine fits_moves ⟨?_, before.unreported, fun other said told => by (cases told), each.2⟩ ?_
    · intro other member
      refine stays ?_ (before.stillOpen other (List.mem_cons_of_mem _ member))
      rintro rfl
      exact each.1 member
    · intro reporter different
      refine ⟨?_, (inv.fits reporter).unreported, (inv.fits reporter).pending, (inv.fits reporter).each⟩
      intro other member
      refine stays ?_ ((inv.fits reporter).stillOpen other member)
      rintro rfl
      exact inv.apart worker reporter different other (by rw [held]; exact List.mem_cons_self) member
  · intro other said member
    rcases inv.settled other said member with final | ⟨reporter, pending⟩
    · refine Or.inl (stays ?_ final)
      rintro rfl
      rw [before.stillOpen other List.mem_cons_self] at final
      cases final
    · by_cases own : reporter = worker
      · rw [own, holds] at pending
        obtain ⟨rfl, rfl⟩ := Prod.mk.inj (Option.some.inj pending)
        exact Or.inl (Function.update_self ..)
      · exact Or.inr ⟨reporter, by rw [moves_of_ne own]; exact pending⟩
  · refine apart_moves inv fun other different item' member => ?_
    exact inv.apart worker other different item' (by rw [held]; exact List.mem_cons_of_mem _ member)

theorem inv_opened (inv : Inv s) (new : s.status item = none) :
    Inv { s with status := Function.update s.status item (some none) } := by
  have stays : ∀ {other : κ} {known : Option ω}, s.status other = some known →
      Function.update s.status item (some none) other = some known := by
    intro other known found
    have different : other ≠ item := by
      rintro rfl
      rw [new] at found
      cases found
    rw [Function.update_of_ne different]
    exact found
  refine ⟨⟨inv.once, ?_⟩, ?_, ?_, inv.apart⟩
  · intro other said known
    dsimp only at known
    by_cases same : other = item
    · rw [same, Function.update_self] at known
      cases Option.some.inj known
    · rw [Function.update_of_ne same] at known
      exact inv.told other said known
  · intro reporter
    have before := inv.fits reporter
    exact ⟨fun other member => stays (before.stillOpen other member), before.unreported, before.pending, before.each⟩
  · exact fun other said member => (inv.settled other said member).imp stays id

theorem inv_step (enabled : Enabled s step next) (apart : Apart s step) (inv : Inv s) : Inv next := by
  cases step with
  | opened item =>
    obtain ⟨new, rfl⟩ := enabled
    exact inv_opened inv new
  | fetched worker items =>
    obtain ⟨idle, once, isOpen, rfl⟩ := enabled
    exact inv_fetched inv idle once isOpen apart
  | skipped worker =>
    obtain ⟨item, rest, holds, rfl⟩ := enabled
    refine inv_shrink inv (by rw [holds]; rfl) rfl ?_ ?_
    · rw [holds]
      exact List.sublist_cons_self item rest
    · intro other member
      rw [holds]
      exact List.mem_cons_of_mem item member
  | reported worker outcome =>
    obtain ⟨item, rest, holds, rfl⟩ := enabled
    exact inv_reported inv holds outcome
  | recorded worker =>
    obtain ⟨item, outcome, rest, holds, rfl⟩ := enabled
    exact inv_recorded inv holds
  | stopped worker =>
    obtain rfl := enabled
    exact inv_shrink inv apart rfl (List.nil_sublist _) fun item member => absurd member List.not_mem_nil

/-- Only an item still open is recorded, so an outcome stays. -/
theorem outcomesStay_step (enabled : Enabled s step next) (inv : Inv s) : OutcomesStay s next := by
  intro item outcome known
  cases step with
  | opened other =>
    obtain ⟨new, rfl⟩ := enabled
    have different : item ≠ other := by
      rintro rfl
      rw [new] at known
      cases known
    exact (Function.update_of_ne different ..).trans known
  | fetched worker items =>
    obtain ⟨_, _, _, rfl⟩ := enabled
    exact known
  | skipped worker =>
    obtain ⟨_, _, _, rfl⟩ := enabled
    exact known
  | reported worker said =>
    obtain ⟨_, _, _, rfl⟩ := enabled
    exact known
  | recorded worker =>
    obtain ⟨other, said, rest, holds, rfl⟩ := enabled
    have isOpen := (inv.fits worker).stillOpen other (by rw [holds]; exact List.mem_cons_self)
    have different : item ≠ other := by
      rintro rfl
      rw [known] at isOpen
      cases isOpen
    exact (Function.update_of_ne different ..).trans known
  | stopped worker =>
    obtain rfl := enabled
    exact known

end System

end DbaBrain.Foundation.ReportOnce
