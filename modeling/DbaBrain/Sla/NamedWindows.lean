import DbaBrain.Sla.Months

/-!
# Minutes of several windows at once

One query counts the minutes of all windows that end together: the samples of the
widest are put into minutes, and a window takes the minutes from its start's on.
-/

namespace DbaBrain.Sla.NamedWindows

open DbaBrain.Foundation.Text DbaBrain.Db.MetricStore DbaBrain.Sla.Months

/-- `window_starts`: each window's name and where it starts. -/
abbrev Windows := List (String × String)

/-- `min(window_starts.values())`. -/
def earliestStart : Windows → String
  | [] => ""
  | window :: others => others.foldl (fun earliest other => min earliest other.2) window.2

/-- What `minute_counts` gives: the targets it names, and the figure of a target in a window it was asked about. -/
structure NamedCounts where
  targets : Finset String
  figure : String → String → Figure

/-- `minute_counts`. -/
def namedMinuteCounts (sampling : Sampling) (windows : Windows) (windowEnd : String) (rows : List MetricRow) :
    NamedCounts :=
  if asksNothing sampling = true ∨ windows = [] then ⟨∅, fun _ _ => ⟨0, 0⟩⟩
  else
    let counted := rows.filter (isCounted sampling (earliestStart windows) windowEnd)
    { targets := (counted.map fun row => row.targetId).toFinset
      figure := fun targetId name =>
        match windows.lookup name with
        | none => ⟨0, 0⟩
        | some start =>
            { observed := ((minutesOf targetId counted).filter fun text => take 16 start ≤ text).card
              good := ((minutesOf targetId (counted.filter (isGood sampling))).filter fun text =>
                take 16 start ≤ text).card } }

/-! ## A window by itself -/

/-- A sample that is asked for, and lies in a window. -/
def isInside (sampling : Sampling) (start windowEnd : String) (row : MetricRow) : Bool :=
  !asksNothing sampling && isCounted sampling start windowEnd row

/-- The minutes a target was seen in within a window, and those the samples in it make good. -/
def insideFigure (sampling : Sampling) (start windowEnd targetId : String) (rows : List MetricRow) : Figure where
  observed := (minutesOf targetId (rows.filter (isInside sampling start windowEnd))).card
  good := (minutesOf targetId ((rows.filter (isInside sampling start windowEnd)).filter (isGood sampling))).card

section Windows

variable {sampling : Sampling} {windows : Windows} {start windowEnd targetId name : String} {rows : List MetricRow}
  {row : MetricRow}

theorem foldl_min_le (others : Windows) (first : String) :
    others.foldl (fun earliest other => min earliest other.2) first ≤ first ∧
      ∀ other ∈ others, others.foldl (fun earliest other => min earliest other.2) first ≤ other.2 := by
  induction others generalizing first with
  | nil => exact ⟨le_rfl, fun other none => absurd none List.not_mem_nil⟩
  | cons window others ih =>
    obtain ⟨below, each⟩ := ih (min first window.2)
    refine ⟨below.trans (min_le_left _ _), List.forall_mem_cons.mpr ⟨below.trans (min_le_right _ _), each⟩⟩

theorem earliestStart_le (found : windows.lookup name = some start) : earliestStart windows ≤ start := by
  cases windows with
  | nil => cases found
  | cons window others =>
    obtain ⟨below, each⟩ := foldl_min_le others window.2
    obtain ⟨pair, member, same⟩ : ∃ pair ∈ window :: others, pair.2 = start := by
      rw [List.lookup_eq_some_iff] at found
      obtain ⟨front, back, split, -⟩ := found
      exact ⟨(name, start), split ▸ List.mem_append_right _ List.mem_cons_self, rfl⟩
    rw [← same]
    rcases List.mem_cons.mp member with rfl | later
    · exact below
    · exact each pair later

/-- A sample of a window is one of the widest, from the window's start on. -/
theorem isCounted_iff (first : String) (le : first ≤ start) : isCounted sampling start windowEnd row = true ↔
    isCounted sampling first windowEnd row = true ∧ start ≤ row.collectedAt := by
  unfold isCounted
  simp only [Bool.and_eq_true, decide_eq_true_eq]
  constructor
  · rintro ⟨⟨⟨⟨⟨code, scope⟩, after⟩, before⟩, error⟩, maintenance⟩
    exact ⟨⟨⟨⟨⟨⟨code, scope⟩, le.trans after⟩, before⟩, error⟩, maintenance⟩, after⟩
  · rintro ⟨⟨⟨⟨⟨⟨code, scope⟩, -⟩, before⟩, error⟩, maintenance⟩, after⟩
    exact ⟨⟨⟨⟨⟨code, scope⟩, after⟩, before⟩, error⟩, maintenance⟩

/-- Of the minutes from a start's on, none is counted that the samples from the start on do not hold, exactly when the
samples of the start's own minute before it have one behind it. -/
theorem card_from_start_iff (counts : MetricRow → Bool) :
    ((minutesOf targetId (rows.filter counts)).filter fun text => take 16 start ≤ text).card =
        (minutesOf targetId (rows.filter fun row => counts row && start ≤ row.collectedAt)).card ↔
      ∀ row ∈ rows, counts row = true → row.targetId = targetId → row.collectedAt < start →
        minute row = take 16 start → ∃ other ∈ rows, counts other = true ∧ start ≤ other.collectedAt ∧
          other.targetId = targetId ∧ minute other = minute row := by
  have fewer : minutesOf targetId (rows.filter fun row => counts row && start ≤ row.collectedAt) ⊆
      (minutesOf targetId (rows.filter counts)).filter fun text => take 16 start ≤ text := by
    intro text member
    obtain ⟨row, among, own, rfl⟩ := mem_minutesOf.mp member
    obtain ⟨there, both⟩ := List.mem_filter.mp among
    simp only [Bool.and_eq_true, decide_eq_true_eq] at both
    refine Finset.mem_filter.mpr ⟨mem_minutesOf.mpr ⟨row, List.mem_filter.mpr ⟨there, both.1⟩, own, rfl⟩, ?_⟩
    exact take_le_take 16 both.2
  constructor
  · intro same row member counted own before at_start
    have equal := Finset.eq_of_subset_of_card_le fewer same.le
    have late : minute row ∈ (minutesOf targetId (rows.filter counts)).filter fun text => take 16 start ≤ text :=
      Finset.mem_filter.mpr ⟨mem_minutesOf.mpr ⟨row, List.mem_filter.mpr ⟨member, counted⟩, own, rfl⟩, at_start.ge⟩
    rw [← equal] at late
    obtain ⟨other, among, found, at_minute⟩ := mem_minutesOf.mp late
    obtain ⟨there, both⟩ := List.mem_filter.mp among
    simp only [Bool.and_eq_true, decide_eq_true_eq] at both
    exact ⟨other, there, both.1, both.2, found, at_minute⟩
  · intro each
    refine congrArg Finset.card (Finset.Subset.antisymm (fun text member => ?_) fewer)
    obtain ⟨among, late⟩ := Finset.mem_filter.mp member
    obtain ⟨row, inside, own, rfl⟩ := mem_minutesOf.mp among
    obtain ⟨there, counted⟩ := List.mem_filter.mp inside
    by_cases after : start ≤ row.collectedAt
    · exact mem_minutesOf.mpr ⟨row, List.mem_filter.mpr ⟨there, by simp [counted, after]⟩, own, rfl⟩
    · have before := not_le.mp after
      have at_start : minute row = take 16 start := le_antisymm (take_le_take 16 before.le) late
      obtain ⟨other, present, counts_too, later, found, at_minute⟩ := each row there counted own before at_start
      exact mem_minutesOf.mpr ⟨other, List.mem_filter.mpr ⟨present, by simp [counts_too, later]⟩, found, at_minute⟩

end Windows

/-! ## The windows of one call -/

/-- The samples of the start's minute that lie before the start change nothing: behind the start the minute has a sample
of the same target, and a good one where one of them is good. -/
def StartsClean (sampling : Sampling) (earliest start windowEnd : String) (rows : List MetricRow) : Prop :=
  ∀ row ∈ rows, isInside sampling earliest windowEnd row = true → row.collectedAt < start →
    minute row = take 16 start → ∃ other ∈ rows, isInside sampling start windowEnd other = true ∧
      other.targetId = row.targetId ∧ minute other = minute row ∧
        (isGood sampling row = true → isGood sampling other = true)

section Calls

variable {sampling : Sampling} {windows : Windows} {start windowEnd targetId name : String} {rows : List MetricRow}

theorem isInside_of_asked (asked : asksNothing sampling = false) :
    isInside sampling start windowEnd = isCounted sampling start windowEnd := by
  funext row
  rw [isInside, asked, Bool.not_false, Bool.true_and]

theorem isInside_of_unasked (unasked : asksNothing sampling = true) (row : MetricRow) :
    isInside sampling start windowEnd row = false := by
  rw [isInside, unasked, Bool.not_true, Bool.false_and]

theorem namedMinuteCounts_of_asked (asked : asksNothing sampling = false) (found : windows.lookup name = some start) :
    (namedMinuteCounts sampling windows windowEnd rows).figure targetId name =
      { observed := ((minutesOf targetId (rows.filter (isCounted sampling (earliestStart windows) windowEnd))).filter
          fun text => take 16 start ≤ text).card
        good := ((minutesOf targetId (rows.filter fun row =>
          isCounted sampling (earliestStart windows) windowEnd row && isGood sampling row)).filter
            fun text => take 16 start ≤ text).card } := by
  have some_window : windows ≠ [] := by
    rintro rfl
    cases found
  have both : (rows.filter (isCounted sampling (earliestStart windows) windowEnd)).filter (isGood sampling) =
      rows.filter fun row => isCounted sampling (earliestStart windows) windowEnd row && isGood sampling row := by
    rw [List.filter_filter]
    exact List.filter_congr fun row _ => Bool.and_comm _ _
  unfold namedMinuteCounts
  rw [if_neg (by simp [asked, some_window])]
  simp only [found, both]

/-- The samples of a window, told by those of the widest. -/
theorem insideFigure_of_asked (asked : asksNothing sampling = false) (found : windows.lookup name = some start) :
    insideFigure sampling start windowEnd targetId rows =
      { observed := (minutesOf targetId (rows.filter fun row =>
          isCounted sampling (earliestStart windows) windowEnd row && start ≤ row.collectedAt)).card
        good := (minutesOf targetId (rows.filter fun row =>
          (isCounted sampling (earliestStart windows) windowEnd row && isGood sampling row) &&
            start ≤ row.collectedAt)).card } := by
  have cut (row : MetricRow) : isCounted sampling start windowEnd row =
      (isCounted sampling (earliestStart windows) windowEnd row && decide (start ≤ row.collectedAt)) := by
    rw [Bool.eq_iff_iff, isCounted_iff _ (earliestStart_le found), Bool.and_eq_true, decide_eq_true_eq]
  unfold insideFigure
  rw [isInside_of_asked asked, List.filter_filter, funext cut]
  congr 3
  refine List.filter_congr fun row _ => ?_
  rw [← Bool.and_assoc, Bool.and_comm (isGood sampling row)]

/-- A window's figure is the one of its own samples exactly where its start leaves no sample of its minute behind. -/
theorem figure_eq_iff (found : windows.lookup name = some start) :
    (∀ targetId, (namedMinuteCounts sampling windows windowEnd rows).figure targetId name =
        insideFigure sampling start windowEnd targetId rows) ↔
      StartsClean sampling (earliestStart windows) start windowEnd rows := by
  cases asked : asksNothing sampling with
  | true =>
    refine iff_of_true (fun targetId => ?_) fun row _ inside => ?_
    · have nothing : rows.filter (isInside sampling start windowEnd) = [] :=
        List.filter_eq_nil_iff.mpr fun row _ => by simp [isInside_of_unasked asked]
      unfold namedMinuteCounts insideFigure
      rw [if_pos (Or.inl asked), nothing]
      rfl
    · rw [isInside_of_unasked asked] at inside
      exact absurd inside Bool.false_ne_true
  | false =>
    simp only [namedMinuteCounts_of_asked asked found, insideFigure_of_asked asked found, Figure.mk.injEq,
      card_from_start_iff]
    have cut (row : MetricRow) : isCounted sampling start windowEnd row = true ↔
        isCounted sampling (earliestStart windows) windowEnd row = true ∧ start ≤ row.collectedAt :=
      isCounted_iff _ (earliestStart_le found)
    unfold StartsClean
    rw [isInside_of_asked asked, isInside_of_asked asked]
    constructor
    · intro each row member counted before at_start
      by_cases good : isGood sampling row = true
      · obtain ⟨other, present, both, after, own, same⟩ :=
          (each row.targetId).2 row member (by simp [counted, good]) rfl before at_start
        rw [Bool.and_eq_true] at both
        exact ⟨other, present, (cut other).mpr ⟨both.1, after⟩, own, same, fun _ => both.2⟩
      · obtain ⟨other, present, counts_too, after, own, same⟩ :=
          (each row.targetId).1 row member counted rfl before at_start
        exact ⟨other, present, (cut other).mpr ⟨counts_too, after⟩, own, same, fun is_good => absurd is_good good⟩
    · intro clean targetId
      refine ⟨fun row member counted own before at_start => ?_, fun row member both own before at_start => ?_⟩
      · obtain ⟨other, present, inside, found_own, same, -⟩ := clean row member counted before at_start
        obtain ⟨counts_too, after⟩ := (cut other).mp inside
        exact ⟨other, present, counts_too, after, found_own.trans own, same⟩
      · rw [Bool.and_eq_true] at both
        obtain ⟨other, present, inside, found_own, same, keeps⟩ := clean row member both.1 before at_start
        obtain ⟨counts_too, after⟩ := (cut other).mp inside
        exact ⟨other, present, by simp [counts_too, keeps both.2], after, found_own.trans own, same⟩

theorem startsClean_alone : StartsClean sampling (earliestStart [(name, start)]) start windowEnd rows := by
  intro row _ inside before
  have after : start ≤ row.collectedAt := by
    have counted := (Bool.and_eq_true _ _ ▸ inside : _ ∧ _).2
    unfold isCounted at counted
    simp only [Bool.and_eq_true, decide_eq_true_eq] at counted
    exact counted.1.1.1.2
  exact absurd before (not_lt.mpr after)

/-- Each window's figure is that of the samples in it, whatever other windows are asked for, exactly where every start
leaves no sample of its minute behind that would change it. -/
theorem named_windows_iff (sampling : Sampling) (windows : Windows) (windowEnd : String) (rows : List MetricRow) :
    (∀ name start, windows.lookup name = some start → ∀ targetId,
      (namedMinuteCounts sampling windows windowEnd rows).figure targetId name =
          insideFigure sampling start windowEnd targetId rows ∧
        (namedMinuteCounts sampling windows windowEnd rows).figure targetId name =
          (namedMinuteCounts sampling [(name, start)] windowEnd rows).figure targetId name) ↔
      ∀ name start, windows.lookup name = some start →
        StartsClean sampling (earliestStart windows) start windowEnd rows := by
  refine forall₃_congr fun name start found => ?_
  have alone : ∀ targetId, (namedMinuteCounts sampling [(name, start)] windowEnd rows).figure targetId name =
      insideFigure sampling start windowEnd targetId rows :=
    (figure_eq_iff List.lookup_cons_self).mpr startsClean_alone
  rw [← figure_eq_iff found]
  refine forall_congr' fun targetId => ?_
  rw [alone targetId, and_self]

/-- A sample ten seconds into a minute, of which a window takes the second half. -/
def earlySample : MetricRow :=
  { sampleResult with
    collectedAt := "2026-10-16T10:00:10Z"
    resultId := 1
    runId := 1
    dailyReportCreated := false }

def salesSampling : Sampling := ⟨["SALES"], [], [], ["INSTANCE_STATUS"], [], [], []⟩

/-- With a wider window beside it, a window that starts within a minute counts a sample that lies before it. -/
theorem straddled_minute_counted : ¬ ∀ name start,
    [("policy", "2026-10-16T09:00:30Z"), ("1h", "2026-10-16T10:00:30Z")].lookup name = some start → ∀ targetId,
      (namedMinuteCounts salesSampling [("policy", "2026-10-16T09:00:30Z"), ("1h", "2026-10-16T10:00:30Z")]
          "2026-10-16T11:00:30Z" [earlySample]).figure targetId name =
        insideFigure salesSampling start "2026-10-16T11:00:30Z" targetId [earlySample] := by
  intro figures
  have observed := congrArg Figure.observed (figures "1h" "2026-10-16T10:00:30Z" (by decide +kernel) "SALES")
  exact absurd observed (by decide +kernel)

end Calls

end DbaBrain.Sla.NamedWindows
