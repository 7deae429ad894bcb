import DbaBrain.Db.MetricStore

/-!
# Availability by calendar month

A month's figures count the minutes a target was seen in and the minutes it was
seen good in.  The current month is counted in the live rows, the closed one in
the live and the archived ones together, once, and read from its cache after.
-/

namespace DbaBrain.Sla.Months

open DbaBrain.Foundation.Calendar DbaBrain.Foundation.Text DbaBrain.Db.MetricStore

/-! ## Counting minutes -/

/-- What `minute_counts` is asked about; the statuses and the error types are in upper case, the kinds of database in
lower case, as it puts them. -/
structure Sampling where
  targetIds : List String
  serverIds : List String
  dbTypes : List String
  metricCodes : List String
  goodStatuses : List String
  excludedErrorTypes : List String
  maintenanceWindows : List (String × String)

/-- `_build_scope_clause`. -/
def inScope (sampling : Sampling) (row : MetricRow) : Bool :=
  if sampling.targetIds ≠ [] then row.targetId ∈ sampling.targetIds
  else if sampling.serverIds ≠ [] then row.serverId ∈ sampling.serverIds
  else if sampling.dbTypes ≠ [] then asciiLower row.dbType ∈ sampling.dbTypes
  else true

def inMaintenance (sampling : Sampling) (row : MetricRow) : Bool :=
  sampling.maintenanceWindows.any fun window => window.1 ≤ row.collectedAt && row.collectedAt ≤ window.2

/-- A row that `minute_counts` counts in the window. -/
def isCounted (sampling : Sampling) (windowStart windowEnd : String) (row : MetricRow) : Bool :=
  row.metricCode ∈ sampling.metricCodes && inScope sampling row &&
    windowStart ≤ row.collectedAt && row.collectedAt < windowEnd &&
    asciiUpper (row.errorType.getD "") ∉ sampling.excludedErrorTypes &&
    !inMaintenance sampling row

/-- The good statuses; none stated are these two. -/
def goodStatusesUpper (sampling : Sampling) : List String :=
  if sampling.goodStatuses = [] then ["OK", "LOGGING"] else sampling.goodStatuses

def isGood (sampling : Sampling) (row : MetricRow) : Bool := asciiUpper row.status ∈ goodStatusesUpper sampling

/-- `substr(collected_at, 1, 16)`. -/
def minute (row : MetricRow) : String := take 16 row.collectedAt

def minutesOf (targetId : String) (rows : List MetricRow) : Finset String :=
  ((rows.filter fun row => row.targetId = targetId).map minute).toFinset

structure Figure where
  observed : Nat
  good : Nat
  deriving DecidableEq

/-- The figures of the targets that have any; the others read as zeros. -/
structure Counts where
  targets : Finset String
  figure : String → Figure

def Counts.none : Counts := ⟨∅, fun _ => ⟨0, 0⟩⟩

/-- It names no metric, or nothing it could be in scope of. -/
def asksNothing (sampling : Sampling) : Bool :=
  sampling.metricCodes = [] || (sampling.targetIds = [] && sampling.serverIds = [] && sampling.dbTypes = [])

def minuteCounts (sampling : Sampling) (windowStart windowEnd : String) (rows : List MetricRow) : Counts :=
  if asksNothing sampling then .none
  else
    let counted := rows.filter (isCounted sampling windowStart windowEnd)
    { targets := (counted.map fun row => row.targetId).toFinset
      figure := fun targetId =>
        { observed := ((minutesOf targetId counted).filter fun text => take 16 windowStart ≤ text).card
          good := ((minutesOf targetId (counted.filter (isGood sampling))).filter fun text =>
            take 16 windowStart ≤ text).card } }

/-! ## The two months -/

/-- The display timezone: the months of its calendar, numbered, and the moment each of them starts. -/
structure Zone where
  monthOf : Moment → Int
  startOf : Int → Moment

/-- A policy as the month report reads it: its sampling, and the enabled targets it expects. -/
structure Policy where
  sampling : Sampling
  expectedTargets : List String

/-- The metric store, and the months the policy's runtime folder has on file. -/
structure World where
  store : Store
  cache : Int → Option Counts

/-- `_resolve_metric_source`. -/
def metricSource (store : Store) (includeArchive : Bool) : List MetricRow :=
  if includeArchive then store.live ++ store.archive.map Prod.fst else store.live

/-- The closed month counted from the live and the archived rows. -/
def countMonth (zone : Zone) (policy : Policy) (month : Int) (store : Store) : Counts :=
  minuteCounts policy.sampling (isoText (zone.startOf month)) (isoText (zone.startOf (month + 1)))
    (metricSource store true)

/-- The current month to date, counted from the live rows. -/
def countToDate (zone : Zone) (policy : Policy) (now : Moment) (store : Store) : Counts :=
  minuteCounts policy.sampling (isoText (zone.startOf (zone.monthOf now))) (isoText now) (metricSource store false)

structure MonthAvailability where
  targets : Finset String
  thisMonth : String → Figure
  prevMonth : String → Figure

/-- `get_month_availability`; `runtimeDir` says whether a runtime folder is named. -/
def getMonthAvailability (zone : Zone) (policy : Policy) (runtimeDir : Bool) (now : Moment) (world : World) :
    MonthAvailability × World :=
  let month := zone.monthOf now - 1
  let onFile := if runtimeDir then world.cache month else none
  let previous := onFile.getD (countMonth zone policy month world.store)
  let current := countToDate zone policy now world.store
  let written :=
    if runtimeDir ∧ onFile = none ∧ previous.targets ≠ ∅ then
      { world with cache := Function.update world.cache month (some previous) }
    else world
  ({ targets := policy.expectedTargets.toFinset ∪ previous.targets ∪ current.targets
     thisMonth := current.figure
     prevMonth := previous.figure }, written)

/-! ## What the counts depend on -/

section Counting

variable {sampling : Sampling} {windowStart windowEnd targetId text : String} {rows others : List MetricRow}
  {row : MetricRow}

theorem mem_minutesOf : text ∈ minutesOf targetId rows ↔ ∃ row ∈ rows, row.targetId = targetId ∧ minute row = text := by
  unfold minutesOf
  rw [List.mem_toFinset, List.mem_map]
  constructor
  · rintro ⟨row, member, same⟩
    obtain ⟨among, own⟩ := List.mem_filter.mp member
    exact ⟨row, among, of_decide_eq_true own, same⟩
  · rintro ⟨row, member, own, same⟩
    exact ⟨row, List.mem_filter.mpr ⟨member, decide_eq_true own⟩, same⟩

theorem minutesOf_congr (same : ∀ row, row ∈ rows ↔ row ∈ others) : minutesOf targetId rows = minutesOf targetId others := by
  ext text
  rw [mem_minutesOf, mem_minutesOf]
  constructor
  · rintro ⟨row, member, found⟩
    exact ⟨row, (same row).mp member, found⟩
  · rintro ⟨row, member, found⟩
    exact ⟨row, (same row).mpr member, found⟩

/-- The counts are of the rows there are, however they lie. -/
theorem minuteCounts_congr (same : ∀ row, row ∈ rows ↔ row ∈ others) :
    minuteCounts sampling windowStart windowEnd rows = minuteCounts sampling windowStart windowEnd others := by
  have filtered : ∀ keep : MetricRow → Bool, ∀ row, row ∈ rows.filter keep ↔ row ∈ others.filter keep := by
    intro keep row
    rw [List.mem_filter, List.mem_filter, same]
  unfold minuteCounts
  split
  · rfl
  · dsimp only
    congr 1
    · ext targetId
      rw [List.mem_toFinset, List.mem_toFinset, List.mem_map, List.mem_map]
      exact exists_congr fun row => and_congr_left fun _ => filtered _ row
    · funext targetId
      have counted := filtered (isCounted sampling windowStart windowEnd)
      have good : ∀ row, row ∈ (rows.filter (isCounted sampling windowStart windowEnd)).filter (isGood sampling) ↔
          row ∈ (others.filter (isCounted sampling windowStart windowEnd)).filter (isGood sampling) := by
        intro row
        simp only [List.mem_filter, same]
      rw [minutesOf_congr counted, minutesOf_congr good]

theorem lt_of_take_lt {first second : List Char} (count : Nat) (less : first.take count < second.take count) :
    first < second := by
  induction count generalizing first second with
  | zero =>
    rw [List.take_zero, List.take_zero] at less
    exact absurd less (lt_irrefl _)
  | succ count ih =>
    cases first with
    | nil =>
      cases second with
      | nil => exact absurd less (lt_irrefl _)
      | cons c rest => exact List.nil_lt_cons c rest
    | cons c front =>
      cases second with
      | nil => exact absurd less (List.not_lt_nil _)
      | cons d back =>
        rw [List.take_succ_cons, List.take_succ_cons, List.cons_lt_cons_iff] at less
        rw [List.cons_lt_cons_iff]
        exact less.imp id (And.imp id ih)

/-- A text from another one on is so to the minute. -/
theorem take_le_take (count : Nat) {first second : String} (le : first ≤ second) : take count first ≤ take count second := by
  rw [← not_lt] at le ⊢
  intro less
  rw [String.lt_iff_toList_lt, take, take, String.toList_ofList, String.toList_ofList] at less
  exact le (String.lt_iff_toList_lt.mpr (lt_of_take_lt count less))

theorem windowStart_le_minute (counted : isCounted sampling windowStart windowEnd row = true) :
    take 16 windowStart ≤ minute row := by
  unfold isCounted at counted
  simp only [Bool.and_eq_true, decide_eq_true_eq] at counted
  exact take_le_take 16 counted.1.1.1.2

/-- Of the minutes of some rows none is lost with the rows that go, exactly when each has a row that stays. -/
theorem card_minutes_eq_iff {counts keep : MetricRow → Bool} {start : String}
    (from_start : ∀ row, counts row = true → start ≤ minute row) :
    ((minutesOf targetId (rows.filter counts)).filter fun text => start ≤ text).card =
        ((minutesOf targetId ((rows.filter keep).filter counts)).filter fun text => start ≤ text).card ↔
      ∀ row ∈ rows, counts row = true → row.targetId = targetId →
        ∃ other ∈ rows, keep other = true ∧ counts other = true ∧ other.targetId = targetId ∧ minute other = minute row := by
  have fewer : ((minutesOf targetId ((rows.filter keep).filter counts)).filter fun text => start ≤ text) ⊆
      (minutesOf targetId (rows.filter counts)).filter fun text => start ≤ text := by
    refine Finset.filter_subset_filter _ ?_
    intro text member
    obtain ⟨row, among, found⟩ := mem_minutesOf.mp member
    obtain ⟨kept, counted⟩ := List.mem_filter.mp among
    exact mem_minutesOf.mpr ⟨row, List.mem_filter.mpr ⟨(List.mem_filter.mp kept).1, counted⟩, found⟩
  constructor
  · intro same row member counted own
    have equal := Finset.eq_of_subset_of_card_le fewer same.le
    have before : minute row ∈ (minutesOf targetId (rows.filter counts)).filter fun text => start ≤ text :=
      Finset.mem_filter.mpr ⟨mem_minutesOf.mpr ⟨row, List.mem_filter.mpr ⟨member, counted⟩, own, rfl⟩,
        from_start row counted⟩
    rw [← equal] at before
    obtain ⟨other, among, found, at_minute⟩ := mem_minutesOf.mp (Finset.mem_filter.mp before).1
    obtain ⟨kept, counts_too⟩ := List.mem_filter.mp among
    obtain ⟨there, stays⟩ := List.mem_filter.mp kept
    exact ⟨other, there, stays, counts_too, found, at_minute⟩
  · intro each
    refine congrArg Finset.card (Finset.Subset.antisymm ?_ fewer)
    intro text member
    obtain ⟨inside, late⟩ := Finset.mem_filter.mp member
    obtain ⟨row, among, own, rfl⟩ := mem_minutesOf.mp inside
    obtain ⟨there, counted⟩ := List.mem_filter.mp among
    obtain ⟨other, present, stays, counts_too, found, at_minute⟩ := each row there counted own
    refine Finset.mem_filter.mpr ⟨mem_minutesOf.mpr ⟨other, ?_, found, at_minute⟩, late⟩
    exact List.mem_filter.mpr ⟨List.mem_filter.mpr ⟨present, stays⟩, counts_too⟩

end Counting

/-! ## The figures after archive calls -/

/-- What happens to the store and to the policy's month files. -/
inductive Event
  | archived (call : ArchiveCall)
  | asked (runtimeDir : Bool) (now : Moment)

def happen (zone : Zone) (policy : Policy) (world : World) : Event → World
  | .archived call => { world with store := archiveOldResults call world.store }
  | .asked runtimeDir now => (getMonthAvailability zone policy runtimeDir now world).2

def worldAfter (zone : Zone) (policy : Policy) (store : Store) (events : List Event) : World :=
  events.foldl (happen zone policy) ⟨store, fun _ => none⟩

/-- The figures are the same before the calls and after them, and what is served of the closed month is its recount. -/
structure FiguresKept (zone : Zone) (policy : Policy) (runtimeDir : Bool) (now : Moment) (calls : List ArchiveCall)
    (world : World) : Prop where
  thisMonth : (getMonthAvailability zone policy runtimeDir now (calls.foldl (fun held call =>
      happen zone policy held (.archived call)) (getMonthAvailability zone policy runtimeDir now world).2)).1.thisMonth =
    (getMonthAvailability zone policy runtimeDir now world).1.thisMonth
  prevMonth : (getMonthAvailability zone policy runtimeDir now (calls.foldl (fun held call =>
      happen zone policy held (.archived call)) (getMonthAvailability zone policy runtimeDir now world).2)).1.prevMonth =
    (getMonthAvailability zone policy runtimeDir now world).1.prevMonth
  served : (getMonthAvailability zone policy runtimeDir now world).1.prevMonth =
    (countMonth zone policy (zone.monthOf now - 1) world.store).figure

def isOfThisMonth (zone : Zone) (policy : Policy) (now : Moment) (row : MetricRow) : Bool :=
  !asksNothing policy.sampling &&
    isCounted policy.sampling (isoText (zone.startOf (zone.monthOf now))) (isoText now) row

/-- Of every minute the current month counts a row stays live, and a good one where it was good. -/
def KeepsMinutes (zone : Zone) (policy : Policy) (now : Moment) (calls : List ArchiveCall) (store : Store) : Prop :=
  ∀ row ∈ store.live, isOfThisMonth zone policy now row = true →
    ∃ other ∈ store.live, (∀ call ∈ calls, call.moves other = false) ∧ isOfThisMonth zone policy now other = true ∧
      other.targetId = row.targetId ∧ minute other = minute row ∧
      (isGood policy.sampling row = true → isGood policy.sampling other = true)

section Archiving

variable {zone : Zone} {policy : Policy} {world : World} {store : Store}

/-- The months on file are recounts. -/
def Sound (zone : Zone) (policy : Policy) (world : World) : Prop :=
  ∀ month counts, world.cache month = some counts → counts = countMonth zone policy month world.store

theorem countMonth_archive (call : ArchiveCall) (month : Int) :
    countMonth zone policy month (archiveOldResults call store) = countMonth zone policy month store :=
  minuteCounts_congr fun _ => mem_tables_archiveOldResults call store

/-- What is read of the closed month is its recount, and it is written as one. -/
theorem getMonthAvailability_spec (runtimeDir : Bool) (now : Moment) (sound : Sound zone policy world) :
    (getMonthAvailability zone policy runtimeDir now world).1.prevMonth =
        (countMonth zone policy (zone.monthOf now - 1) world.store).figure ∧
      (getMonthAvailability zone policy runtimeDir now world).2.store = world.store ∧
      Sound zone policy (getMonthAvailability zone policy runtimeDir now world).2 := by
  have read : (if runtimeDir then world.cache (zone.monthOf now - 1) else none).getD
      (countMonth zone policy (zone.monthOf now - 1) world.store) =
        countMonth zone policy (zone.monthOf now - 1) world.store := by
    split
    · cases onFile : world.cache (zone.monthOf now - 1) with
      | none => rfl
      | some counts => exact sound _ counts onFile
    · rfl
  unfold getMonthAvailability
  dsimp only
  generalize (if runtimeDir then world.cache (zone.monthOf now - 1) else none) = onFile at read ⊢
  rw [read]
  refine ⟨rfl, ?_, ?_⟩
  · split
    · rfl
    · rfl
  · split
    · intro month counts onFile
      dsimp only at onFile ⊢
      by_cases same : month = zone.monthOf now - 1
      · rw [same, Function.update_self] at onFile
        rw [same]
        exact (Option.some.inj onFile).symm
      · rw [Function.update_of_ne same] at onFile
        exact sound month counts onFile
    · exact sound

theorem sound_happen (event : Event) (sound : Sound zone policy world) :
    Sound zone policy (happen zone policy world event) := by
  cases event with
  | archived call =>
    intro month counts onFile
    rw [sound month counts onFile]
    exact (countMonth_archive call month).symm
  | asked runtimeDir now => exact (getMonthAvailability_spec runtimeDir now sound).2.2

theorem sound_foldl (events : List Event) (sound : Sound zone policy world) :
    Sound zone policy (events.foldl (happen zone policy) world) := by
  induction events generalizing world with
  | nil => exact sound
  | cons event rest ih => exact ih (sound_happen event sound)

theorem sound_worldAfter (events : List Event) : Sound zone policy (worldAfter zone policy store events) :=
  sound_foldl events fun month counts onFile => by cases onFile

theorem store_archived (calls : List ArchiveCall) :
    (calls.foldl (fun held call => happen zone policy held (.archived call)) world).store =
      archiveAll calls world.store := by
  induction calls generalizing world with
  | nil => rfl
  | cons call rest ih => exact ih

theorem sound_archived (calls : List ArchiveCall) (sound : Sound zone policy world) :
    Sound zone policy (calls.foldl (fun held call => happen zone policy held (.archived call)) world) := by
  induction calls generalizing world with
  | nil => exact sound
  | cons call rest ih => exact ih (sound_happen (.archived call) sound)

theorem countMonth_archiveAll (calls : List ArchiveCall) (month : Int) :
    countMonth zone policy month (archiveAll calls store) = countMonth zone policy month store := by
  induction calls generalizing store with
  | nil => rfl
  | cons call rest ih => exact ih.trans (countMonth_archive call month)

theorem thisMonth_eq (zone : Zone) (policy : Policy) (runtimeDir : Bool) (now : Moment) (world : World) :
    (getMonthAvailability zone policy runtimeDir now world).1.thisMonth =
      (countToDate zone policy now world.store).figure := rfl

/-- The figures over some rows and over those of them that stay are one exactly when every minute keeps its row. -/
theorem figure_kept_iff {sampling : Sampling} {windowStart windowEnd : String} {keep : MetricRow → Bool}
    {rows : List MetricRow} (asks : asksNothing sampling = false) :
    (minuteCounts sampling windowStart windowEnd (rows.filter keep)).figure =
        (minuteCounts sampling windowStart windowEnd rows).figure ↔
      ∀ row ∈ rows, isCounted sampling windowStart windowEnd row = true →
        ∃ other ∈ rows, keep other = true ∧ isCounted sampling windowStart windowEnd other = true ∧
          other.targetId = row.targetId ∧ minute other = minute row ∧
          (isGood sampling row = true → isGood sampling other = true) := by
  have from_start : ∀ row, isCounted sampling windowStart windowEnd row = true → take 16 windowStart ≤ minute row :=
    fun row counted => windowStart_le_minute counted
  have good_from_start : ∀ row, (isGood sampling row && isCounted sampling windowStart windowEnd row) = true →
      take 16 windowStart ≤ minute row := fun row counted => from_start row (Bool.and_eq_true_iff.mp counted).2
  unfold minuteCounts
  rw [if_neg (by rw [asks]; exact Bool.false_ne_true), if_neg (by rw [asks]; exact Bool.false_ne_true)]
  dsimp only
  simp only [List.filter_filter (p := isGood sampling)]
  rw [funext_iff]
  constructor
  · intro same row member counted
    obtain ⟨observed, good⟩ := Figure.mk.inj (same row.targetId)
    cases isGood_row : isGood sampling row with
    | false =>
      obtain ⟨other, there, stays, counts, own, at_minute⟩ :=
        (card_minutes_eq_iff from_start).mp observed.symm row member counted rfl
      exact ⟨other, there, stays, counts, own, at_minute, fun impossible => Bool.noConfusion impossible⟩
    | true =>
      obtain ⟨other, there, stays, counts, own, at_minute⟩ :=
        (card_minutes_eq_iff good_from_start).mp good.symm row member
          (Bool.and_eq_true_iff.mpr ⟨isGood_row, counted⟩) rfl
      obtain ⟨good_too, counts_too⟩ := Bool.and_eq_true_iff.mp counts
      exact ⟨other, there, stays, counts_too, own, at_minute, fun _ => good_too⟩
  · intro each targetId
    congr 1
    · refine ((card_minutes_eq_iff from_start).mpr ?_).symm
      intro row member counted own
      obtain ⟨other, there, stays, counts, same, at_minute, _⟩ := each row member counted
      exact ⟨other, there, stays, counts, same.trans own, at_minute⟩
    · refine ((card_minutes_eq_iff good_from_start).mpr ?_).symm
      intro row member counted own
      obtain ⟨isGood_row, counted⟩ := Bool.and_eq_true_iff.mp counted
      obtain ⟨other, there, stays, counts, same, at_minute, good⟩ := each row member counted
      exact ⟨other, there, stays, Bool.and_eq_true_iff.mpr ⟨good isGood_row, counts⟩, same.trans own, at_minute⟩

/-- The current month's figures are kept exactly when its minutes are. -/
theorem countToDate_kept_iff (zone : Zone) (policy : Policy) (now : Moment) (store : Store) (calls : List ArchiveCall) :
    (countToDate zone policy now (archiveAll calls store)).figure = (countToDate zone policy now store).figure ↔
      KeepsMinutes zone policy now calls store := by
  unfold countToDate metricSource KeepsMinutes isOfThisMonth
  rw [if_neg Bool.false_ne_true, if_neg Bool.false_ne_true, live_archiveAll]
  cases asks : asksNothing policy.sampling with
  | true =>
    refine iff_of_true ?_ ?_
    · unfold minuteCounts
      rw [if_pos asks, if_pos asks]
    · intro row _ counted
      cases counted
  | false =>
    rw [figure_kept_iff asks]
    simp only [Bool.not_false, Bool.true_and, List.all_eq_true, Bool.not_eq_true']

end Archiving

/-- The figures of both months are as before, and the closed month's are its recount's, exactly when every minute of
the current month keeps a live row that says of it what its rows said. -/
theorem month_figures_kept_iff (zone : Zone) (policy : Policy) (store : Store) (events : List Event)
    (runtimeDir : Bool) (now : Moment) (calls : List ArchiveCall) :
    FiguresKept zone policy runtimeDir now calls (worldAfter zone policy store events) ↔
      KeepsMinutes zone policy now calls (worldAfter zone policy store events).store := by
  have sound : Sound zone policy (worldAfter zone policy store events) := sound_worldAfter events
  obtain ⟨recount, same, still⟩ := getMonthAvailability_spec runtimeDir now sound
  obtain ⟨later, _, _⟩ := getMonthAvailability_spec runtimeDir now (sound_archived calls still)
  have current := countToDate_kept_iff zone policy now (worldAfter zone policy store events).store calls
  constructor
  · rintro ⟨thisMonth, _, _⟩
    rw [thisMonth_eq, thisMonth_eq, store_archived, same] at thisMonth
    exact current.mp thisMonth
  · intro kept
    refine ⟨?_, ?_, recount⟩
    · rw [thisMonth_eq, thisMonth_eq, store_archived, same]
      exact current.mpr kept
    · rw [later, recount, store_archived, same, countMonth_archiveAll]

/-! ## The last day of a long month -/

def utc : Zone where
  monthOf moment := 12 * yearOf moment.day + (moment.monthAndDay.1 - 1 : Nat)
  startOf month :=
    let year := (month / 12).toNat
    Fin.ofNat _ (86400 * (daysBeforeYear year + ((monthLengths (isLeap year)).take (month % 12).toNat).sum))

/-- One database whose instance status is asked for. -/
def salesPolicy : Policy where
  sampling := ⟨["SALES"], [], [], ["INSTANCE_STATUS"], [], ["AUTHENTICATION_FAILED"], []⟩
  expectedTargets := ["SALES"]

/-- Half past midnight of the first of August. -/
def firstSample : MetricResult := { sampleResult with collectedAt := "2026-08-01T00:30:00Z" }

/-- Noon of the thirty-first. -/
def lastNoon : Moment := 63923774400

/-- At noon of the thirty-first the first day's rows are older than the thirty days that are kept by default. -/
theorem first_day_leaves_the_month : ¬∀ (zone : Zone) (policy : Policy) (store : Store) (events : List Event)
    (runtimeDir : Bool) (now : Moment) (calls : List ArchiveCall),
    FiguresKept zone policy runtimeDir now calls (worldAfter zone policy store events) := by
  intro kept
  have same := (kept utc salesPolicy (insertResults 1 [firstSample] .empty) [] false lastNoon
    [⟨lastNoon, 30, "2026-08-31T12:00:00Z"⟩]).thisMonth
  exact absurd (congrFun same "SALES") (by decide +kernel)

end DbaBrain.Sla.Months
