import DbaBrain.Foundation.Execution
import DbaBrain.Jobs.ClaimedRequests

/-!
# The daemon's children and its books

A start leaves its child on the daemon's books with an open run, or stopped,
exactly when no call fails between the spawn and the claim.  While that is so
the books name every living child, and a `sync` command has one at most.
-/

namespace DbaBrain.Jobs.TrackedChildren

open DbaBrain.Foundation DbaBrain.Foundation.Execution
open DbaBrain.Lib.RunClaim DbaBrain.Db.JobRuns DbaBrain.Db.RunRequests DbaBrain.Db.RunRequestClaim
open Daemon ClaimedRequests

/-- The child is on the books, with an open run. -/
def Tracked (world : World) (child : Child) : Prop :=
  ∃ entry ∈ world.running, entry.pid = child.pid ∧ entry.appCommand.appCommandId = child.appCommandId ∧
    ∃ run, world.runs.lookup entry.logId = some run ∧ run.isRunning = true

/-- A start leaves no living child of its own off the books. -/
def LeavesNoneUntracked (before after : World) : Prop :=
  ∀ child ∈ after.children, child ∈ before.children ∨ Tracked after child

/-- No child is spawned; or its marker is read, the insert answered, and a refused child stops. -/
def safeStart (claimant : Claimant) (world : World) (command : AppCommand) (calls : StartCalls) : Bool :=
  !calls.spawns || (calls.reachesClaim && (!heldElsewhere claimant world command || calls.stops))

/-! ## One start -/

variable {world : World} {command : AppCommand} {appCommandId : String}
variable {child : Child} {claimant : Claimant}

theorem mem_spawn :
    child ∈ (world.spawn command).children ↔
      child ∈ world.children ∨ child = ⟨world.newPid, command.appCommandId⟩ := by
  simp [World.spawn]

theorem mem_ended {pid : Nat} : child ∈ (world.ended pid).children ↔ child ∈ world.children ∧ child.pid ≠ pid := by
  simp [World.ended]

/-- The entries of the books are older than a child just spawned. -/
theorem not_tracked_new : ¬ Tracked (world.spawn command) ⟨world.newPid, command.appCommandId⟩ := by
  rintro ⟨entry, member, same, _⟩
  have older : entry ∈ world.running := member
  exact World.newPid_ne_of_running older same

theorem not_mem_new : ⟨world.newPid, appCommandId⟩ ∉ world.children := by
  intro member
  exact World.newPid_ne_of_child member rfl

theorem tracked_recorded {runs : JobRunTable} {request : Option Request} {calls : StartCalls}
    (claimed : claimRun claimant world command request calls = some runs) :
    Tracked (recorded world runs command request calls) ⟨world.newPid, command.appCommandId⟩ := by
  have own : runs.lookup world.nextLogId = some _ := Table.lookup_insert?_self claimed
  refine ⟨_, List.mem_append_right _ (List.mem_singleton_self _), rfl, rfl, _, own, ?_⟩
  rw [isRunning_row, decide_eq_true_eq]
  exact asciiLower_running

theorem leavesNoneUntracked_iff (claimant : Claimant) (world : World) (command : AppCommand)
    (request : Option Request) (calls : StartCalls) :
    LeavesNoneUntracked world (startAppCommand claimant world command request calls).1 ↔
      safeStart claimant world command calls = true := by
  rcases startAppCommand_cases claimant world command request calls with
    ⟨spawns, outcome⟩ | ⟨spawns, reaches, outcome⟩ | ⟨reaches, held, outcome⟩ | ⟨reaches, free, runs, claimed, outcome⟩
  · simp only [outcome, safeStart, spawns, Bool.not_false, Bool.true_or, iff_true]
    exact fun child member => Or.inl member
  · simp only [outcome, safeStart, spawns, reaches, Bool.not_true, Bool.false_and, Bool.or_false, Bool.false_eq_true,
      iff_false]
    intro none_left
    rcases none_left ⟨world.newPid, command.appCommandId⟩ (mem_spawn.mpr (Or.inr rfl)) with older | tracked
    · exact not_mem_new older
    · exact not_tracked_new tracked
  · have spawned : calls.spawns = true := by
      simp only [StartCalls.reachesClaim, Bool.and_eq_true] at reaches
      exact reaches.1.1
    cases stops : calls.stops with
    | true =>
      simp only [outcome, safeStart, spawned, reaches, held, stops, if_true, Bool.or_true, Bool.and_true, iff_true]
      intro child member
      obtain ⟨living, different⟩ := mem_ended.mp member
      rcases mem_spawn.mp living with older | rfl
      · exact Or.inl older
      · exact absurd rfl different
    | false =>
      simp only [outcome, safeStart, spawned, reaches, held, stops, Bool.not_true, Bool.or_false, Bool.and_false,
        Bool.false_eq_true, if_false, iff_false]
      intro none_left
      rcases none_left ⟨world.newPid, command.appCommandId⟩ (mem_spawn.mpr (Or.inr rfl)) with older | tracked
      · exact not_mem_new older
      · exact not_tracked_new tracked
  · simp only [outcome, safeStart, reaches, free, Bool.not_false, Bool.true_or, Bool.and_true, Bool.or_true, iff_true]
    intro child member
    rcases mem_spawn.mp member with older | rfl
    · exact Or.inl older
    · exact Or.inr (tracked_recorded claimed)

/-! ## The books over a run of the daemon -/

def OnTheBooks (world : World) : Prop :=
  ∀ child ∈ world.children, ∃ entry ∈ world.running, entry.slot = (child.appCommandId, child.pid)

/-- The command has one living child at most. -/
def Alone (appCommandId : String) (world : World) : Prop :=
  (world.children.filter fun child => child.appCommandId = appCommandId).length ≤ 1

/-- What the scans of the daemon keep. -/
structure Books (appCommandId : String) (world : World) : Prop where
  complete : OnTheBooks world
  alone : Alone appCommandId world

section Turns

variable {claimant : Claimant} {appCommandId : String}

theorem alone_of_sublist {before after : World} (fewer : after.children.Sublist before.children)
    (alone : Alone appCommandId before) : Alone appCommandId after :=
  (fewer.filter _).length_le.trans alone

theorem books_arrivals (world : World) (arrivals : List Arrival) :
    (arrivals.foldl requestRun world).children = world.children ∧
      (arrivals.foldl requestRun world).running = world.running := by
  induction arrivals generalizing world with
  | nil => exact ⟨rfl, rfl⟩
  | cons arrival rest ih =>
    have one : (requestRun world arrival).children = world.children ∧
        (requestRun world arrival).running = world.running := by
      simp only [requestRun]
      split
      · exact ⟨rfl, rfl⟩
      · split <;> exact ⟨rfl, rfl⟩
    obtain ⟨children, running⟩ := ih (requestRun world arrival)
    exact ⟨children.trans one.1, running.trans one.2⟩

theorem books_recordStartFailure (claimant : Claimant) (world : World) (command : AppCommand) (turn : Turn) :
    (recordStartFailure claimant world command turn).children = world.children ∧
      (recordStartFailure claimant world command turn).running = world.running := by
  simp only [recordStartFailure]
  split
  · split <;> exact ⟨rfl, rfl⟩
  · exact ⟨rfl, rfl⟩

/-- The books a turn leaves are the ones its start leaves. -/
theorem books_turnOf (claimant : Claimant) (start : Start) :
    (turnOf claimant start).world.children = (outcomeOf claimant start).1.children ∧
      (turnOf claimant start).world.running = (outcomeOf claimant start).1.running := by
  have arrived := books_arrivals (outcomeOf claimant start).1 start.turn.arrivals
  simp only [turnOf, startTurn]
  split
  · exact arrived
  · split
    · exact arrived
    · obtain ⟨children, running⟩ := books_recordStartFailure claimant
        { (start.turn.arrivals.foldl requestRun (outcomeOf claimant start).1) with
          requests := releaseRunRequest (start.turn.arrivals.foldl requestRun (outcomeOf claimant start).1).requests
            start.request start.turn } start.command start.turn
      exact ⟨children.trans arrived.1, running.trans arrived.2⟩

variable {world : World}
variable {singlePass : Bool} {requested : String → Bool}

theorem books_startAppCommand {request : Option Request} {calls : StartCalls}
    (safe : safeStart claimant world command calls = true)
    (may : mayStart command.runMode (countInFlight world.running command.appCommandId) = true)
    (sync : command.appCommandId = appCommandId → command.runMode.mode = .sync) (books : Books appCommandId world) :
    Books appCommandId (startAppCommand claimant world command request calls).1 := by
  have spawned : Alone appCommandId (world.spawn command) := by
    rw [Alone, World.spawn, List.filter_append, List.length_append]
    rcases eq_or_ne command.appCommandId appCommandId with rfl | different
    · -- No entry of the command, so no living child of it.
      have nothing : world.children.filter (fun child => child.appCommandId = command.appCommandId) = [] := by
        rw [List.filter_eq_nil_iff]
        intro child member same
        obtain ⟨entry, present, slot⟩ := books.complete child member
        rw [mayStart, sync rfl] at may
        have none_running : countInFlight world.running command.appCommandId = 0 := of_decide_eq_true may
        rw [countInFlight, List.countP_eq_zero] at none_running
        apply none_running entry present
        rw [RunningAppCommand.slot, Prod.mk.injEq] at slot
        simpa [slot.1] using same
      simp [nothing]
    · simpa [different, Alone] using books.alone
  rcases startAppCommand_cases claimant world command request calls with
    ⟨_, outcome⟩ | ⟨spawns, reaches, outcome⟩ | ⟨reaches, held, outcome⟩ | ⟨_, _, runs, _, outcome⟩
  · rw [outcome]
    exact books
  · simp [safeStart, spawns, reaches] at safe
  · have stops : calls.stops = true := by
      have spawns : calls.spawns = true := by
        simp only [StartCalls.reachesClaim, Bool.and_eq_true] at reaches
        exact reaches.1.1
      simpa [safeStart, spawns, reaches, held] using safe
    simp only [outcome, stops, if_true]
    constructor
    · intro child member
      obtain ⟨living, different⟩ := mem_ended.mp member
      rcases mem_spawn.mp living with older | rfl
      · exact books.complete child older
      · exact absurd rfl different
    · exact alone_of_sublist List.filter_sublist spawned
  · rw [outcome]
    constructor
    · intro child member
      rcases mem_spawn.mp member with older | rfl
      · obtain ⟨entry, present, slot⟩ := books.complete child older
        exact ⟨entry, List.mem_append_left _ present, slot⟩
      · exact ⟨_, List.mem_append_right _ (List.mem_singleton_self _), rfl⟩
    · exact spawned

theorem books_scanCommand {turn : Turn}
    (safe : ∀ start ∈ (scanCommand claimant singlePass requested world command turn).start,
      safeStart claimant start.before start.command start.turn.start = true)
    (sync : command.appCommandId = appCommandId → command.runMode.mode = .sync) (books : Books appCommandId world) :
    Books appCommandId (scanCommand claimant singlePass requested world command turn).world := by
  rcases scanCommand_cases claimant singlePass requested world command turn with
    ⟨_, _, skipped⟩ | ⟨start, turned, may, rfl, rfl, origin⟩
  · rw [skipped]
    exact ⟨books.complete, books.alone⟩
  · rw [turned] at safe ⊢
    have own := safe start (start_turnOf claimant start)
    have same : start.before.children = world.children ∧ start.before.running = world.running := by
      rcases origin with ⟨rfl, _⟩ | ⟨before, _⟩
      · exact ⟨rfl, rfl⟩
      · simp [before]
    have before : Books appCommandId start.before := by
      constructor
      · intro child member
        rw [same.1] at member
        rw [same.2]
        exact books.complete child member
      · rw [Alone, same.1]
        exact books.alone
    rw [← same.2] at may
    have outcome : Books appCommandId (outcomeOf claimant start).1 := books_startAppCommand own may sync before
    obtain ⟨children, running⟩ := books_turnOf claimant start
    constructor
    · intro child member
      rw [children] at member
      rw [running]
      exact outcome.complete child member
    · rw [Alone, children]
      exact outcome.alone

theorem books_scanCommands {commands : List (AppCommand × Turn)}
    (safe : ∀ start ∈ (scanCommands claimant singlePass requested world commands).2,
      safeStart claimant start.before start.command start.turn.start = true)
    (sync : ∀ pair ∈ commands, pair.1.appCommandId = appCommandId → pair.1.runMode.mode = .sync)
    (books : Books appCommandId world) :
    Books appCommandId (scanCommands claimant singlePass requested world commands).1 := by
  induction commands generalizing world with
  | nil => exact books
  | cons pair rest ih =>
    obtain ⟨command, turn⟩ := pair
    simp only [scanCommands] at safe ⊢
    split at safe
    · rename_i ends
      rw [if_pos ends]
      apply books_scanCommand _ (sync (command, turn) (by simp)) books
      intro start made
      exact safe start (by simpa using made)
    · rename_i continues
      rw [if_neg continues]
      apply ih
      · intro start made
        exact safe start (List.mem_append_right _ made)
      · intro other member
        exact sync other (List.mem_cons_of_mem _ member)
      · apply books_scanCommand _ (sync (command, turn) (by simp)) books
        intro start made
        exact safe start (List.mem_append_left _ (by simpa using made))

/-! ## Collecting what has ended -/

theorem books_collectOne {calls : CollectCalls} (entry : RunningAppCommand)
    (stops : calls.overran = true → calls.stops = true) (books : Books appCommandId world) :
    Books appCommandId (collectOne calls world entry).1 := by
  have fewer (stopped : World) (sublist : stopped.children.Sublist world.children)
      (same : stopped.running = world.running) : Books appCommandId stopped := by
    constructor
    · intro child member
      rw [same]
      exact books.complete child (sublist.subset member)
    · exact alone_of_sublist sublist books.alone
  simp only [collectOne]
  split
  · exact books
  · rename_i ends
    -- The entry's process has ended, or is stopped here.
    have ended : ∃ stopped : World,
        (if (world.children.any fun child => child.pid = entry.pid) && calls.stops then world.ended entry.pid else world) =
          stopped ∧ stopped.children.Sublist world.children ∧ stopped.running = world.running ∧
        ∀ child ∈ stopped.children, child.pid ≠ entry.pid := by
      refine ⟨_, rfl, ?_⟩
      cases alive : world.children.any fun child => child.pid = entry.pid with
      | false =>
        refine ⟨List.Sublist.refl _, rfl, ?_⟩
        simpa using alive
      | true =>
        simp only [alive, Bool.true_and, Bool.not_eq_true', Bool.not_eq_false, Bool.and_eq_true] at ends
        rw [stops ends.1]
        exact ⟨List.filter_sublist, rfl, fun child member => (mem_ended.mp member).2⟩
    obtain ⟨stopped, isStopped, sublist, same, apart⟩ := ended
    rw [isStopped]
    split
    · constructor
      · intro child member
        obtain ⟨other, present, slot⟩ := books.complete child (sublist.subset member)
        refine ⟨other, List.mem_filter.mpr ⟨same ▸ present, ?_⟩, slot⟩
        rw [decide_eq_true_eq, slot]
        intro equal
        exact apart child member (congrArg Prod.snd equal)
      · exact alone_of_sublist sublist books.alone
    · exact fewer stopped sublist same

theorem books_collectEntries {calls : Nat → CollectCalls}
    (stops : ∀ pid, (calls pid).overran = true → (calls pid).stops = true) (entries : List RunningAppCommand)
    (books : Books appCommandId world) : Books appCommandId (collectEntries calls world entries).1 := by
  induction entries generalizing world with
  | nil => exact books
  | cons entry rest ih =>
    have one := books_collectOne entry (stops entry.pid) books
    simp only [collectEntries]
    split
    · exact ih one
    · exact one

end Turns

/-! ## Runs of the daemon -/

/-- A scan, or a child that ends by itself. -/
inductive Event
  | scan (input : ScanInput)
  | exits (pid : Nat)

def step (claimant : Claimant) (world : World) : Event → Option World
  | .scan input => some (runSchedulerScan claimant world input).1
  | .exits pid => some (world.ended pid)

/-- Every start of the scan is safe, and every child it stops for its timeout ends. -/
def SafeScan (claimant : Claimant) (world : World) (event : Event) (_ : World) : Prop :=
  ∀ input, event = .scan input →
    (∀ pid, (input.calls.collect pid).overran = true → (input.calls.collect pid).stops = true) ∧
    ∀ start ∈ (runSchedulerScan claimant world input).2,
      safeStart claimant start.before start.command start.turn.start = true

/-- Every scan runs the command as `sync`. -/
def RunsSync (appCommandId : String) (event : Event) : Prop :=
  ∀ input, event = .scan input → ∀ pair ∈ input.commands, pair.1.appCommandId = appCommandId →
    pair.1.runMode.mode = .sync

theorem books_sweepRunRequests {calls : ScanCalls} (books : Books appCommandId world) :
    Books appCommandId (sweepRunRequests world calls) := by
  simp only [sweepRunRequests]
  split
  · exact ⟨books.complete, books.alone⟩
  · exact books

theorem books_step (world : World) (event : Event) (next : World) (stepped : step claimant world event = some next)
    (condition : SafeScan claimant world event next ∧ RunsSync appCommandId event) (books : Books appCommandId world) :
    Books appCommandId next := by
  cases event with
  | exits pid =>
    obtain rfl := Option.some.inj stepped
    constructor
    · intro child member
      exact books.complete child (mem_ended.mp member).1
    · exact alone_of_sublist List.filter_sublist books.alone
  | scan input =>
    obtain rfl := Option.some.inj stepped
    obtain ⟨safe, sync⟩ := condition
    obtain ⟨stops, starts⟩ := safe input rfl
    have collected : Books appCommandId (collectRunningCommands input.calls.collect world).1 :=
      books_collectEntries stops _ books
    simp only [runSchedulerScan] at starts ⊢
    split
    · rename_i goes
      rw [if_pos goes] at starts
      exact books_scanCommands starts (sync input rfl) (books_sweepRunRequests collected)
    · exact collected

/-- A start leaves its child tracked or stopped exactly when it is safe; and in every run of a daemon
whose starts are all safe a `sync` command never has two living children. -/
theorem no_untracked_child (claimant : Claimant) :
    (∀ (world : World) (command : AppCommand) (request : Option Request) (calls : StartCalls),
      LeavesNoneUntracked world (startAppCommand claimant world command request calls).1 ↔
        safeStart claimant world command calls = true) ∧
    ∀ (appCommandId : String) (start final : World) (events : List Event),
      start.children = [] → (∀ event ∈ events, RunsSync appCommandId event) →
      Every (step claimant) (SafeScan claimant) start events →
      exec (step claimant) start events = some final → Alone appCommandId final := by
  constructor
  · exact leavesNoneUntracked_iff claimant
  · intro appCommandId start final events childless sync safe run
    have initial : Books appCommandId start := by
      constructor
      · intro child member
        simp [childless] at member
      · simp [Alone, childless]
    exact (exec_invariant_of_every books_step (safe.and (every_of_forall_mem start sync)) initial run).alone

/-- One scan whose every call is answered leaves its one command with one child. -/
theorem no_untracked_child_idleWorld :
    LeavesNoneUntracked idleWorld (startAppCommand thisDaemon idleWorld collectCommand none answered).1 ∧
      ∃ final, exec (step thisDaemon) idleWorld [.scan oneCommand] = some final ∧ Alone "APP-COLLECT" final := by
  obtain ⟨tracked, alone⟩ := no_untracked_child thisDaemon
  refine ⟨(tracked idleWorld collectCommand none answered).mpr (by decide +kernel), _, rfl, ?_⟩
  apply alone "APP-COLLECT" idleWorld _ [.scan oneCommand] rfl _ _ rfl
  · intro event member input same pair present _
    obtain rfl : event = .scan oneCommand := by simpa using member
    obtain rfl := Event.scan.inj same
    obtain rfl : pair = _ := List.mem_singleton.mp present
    rfl
  · intro next _
    refine ⟨?_, trivial⟩
    intro input same
    obtain rfl := Event.scan.inj same
    constructor
    · intro pid overran
      simp [oneCommand] at overran
    · have safe : ((runSchedulerScan thisDaemon idleWorld oneCommand).2.all fun start =>
          safeStart thisDaemon start.before start.command start.turn.start) = true := by decide +kernel
      simpa using safe

/-! ## A store failure between the spawn and the claim -/

def lostInsert : ScanInput :=
  { oneCommand with
    commands :=
      [(collectCommand,
        { scheduled := true, claimAnswers := true, claimNow := noon, claimWrittenAt := noon,
          start := { answered with insertAnswers := false, storeTrouble := true },
          arrivals := [], releaseAnswers := true, recordAnswers := true, reason := "", failedAt := noon })]
    ids_nodup := by simp }

theorem lost_insert_leaves_untracked_child :
    ¬ ((∀ (claimant : Claimant) (world : World) (command : AppCommand) (request : Option Request) (calls : StartCalls),
        LeavesNoneUntracked world (startAppCommand claimant world command request calls).1) ∧
      ∀ (claimant : Claimant) (appCommandId : String) (start final : World) (events : List Event),
        start.children = [] → (∀ event ∈ events, RunsSync appCommandId event) →
        exec (step claimant) start events = some final → Alone appCommandId final) := by
  rintro ⟨_, alone⟩
  -- The second scan finds no entry of the command and starts another copy.
  have two : ((exec (step thisDaemon) idleWorld [.scan lostInsert, .scan lostInsert]).map fun final =>
      (final.children.filter fun child => child.appCommandId = "APP-COLLECT").length) = some 2 := by decide +kernel
  obtain ⟨final, run, count⟩ := Option.map_eq_some_iff.mp two
  have sync : ∀ event ∈ [Event.scan lostInsert, .scan lostInsert], RunsSync "APP-COLLECT" event := by
    intro event member input same pair present _
    obtain rfl : event = .scan lostInsert := by simpa using member
    obtain rfl := Event.scan.inj same
    obtain rfl : pair = _ := List.mem_singleton.mp present
    rfl
  have one := alone thisDaemon "APP-COLLECT" idleWorld final _ rfl sync run
  rw [Alone, count] at one
  simp at one

end DbaBrain.Jobs.TrackedChildren
