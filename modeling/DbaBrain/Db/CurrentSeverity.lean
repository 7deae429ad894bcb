import DbaBrain.Foundation.Dict
import DbaBrain.Foundation.Selection
import DbaBrain.Db.MetricStore

/-!
# The severity of what is current

The newest collection of every metric is picked out once in SQL and once over the rows,
and graded by two lists of statuses.  The pages agree on exactly the contents where the
longer list decides nothing by itself, and no problem is behind the limit.
-/

namespace DbaBrain.Db.CurrentSeverity

open DbaBrain.Foundation DbaBrain.Foundation.Selection
open DbaBrain.Db.MetricStore (asciiUpper)

/-- A row of `metric_results`, as the pages read it. -/
structure MetricRow where
  resultId : ℕ
  serverId : Option String
  metricCode : String
  metricItem : Option String
  metricValue : Option String
  metricUnit : Option String
  status : Option String
  message : Option String
  collectedAt : String
  deriving DecidableEq

/-- `metric_results`; `result_id` is its key. -/
structure MetricResults where
  rows : List MetricRow
  once : (rows.map MetricRow.resultId).Nodup

/-- `str.upper`, which is SQLite's own `upper` on texts of ASCII. -/
structure Uppercase where
  upper : String → String
  ascii : ∀ text : String, (∀ c ∈ text.toList, c.toNat < 128) → upper text = asciiUpper text

/-! ## The severity of a row -/

inductive Severity
  | critical
  | warning
  | ok
  | unknown
  deriving DecidableEq

def Severity.rank : Severity → ℕ
  | .critical => 3
  | .warning => 2
  | .ok => 1
  | .unknown => 0

def criticalStatuses : List String := ["CRITICAL", "ERROR"]

def warningStatuses : List String := ["WARNING", "WARN", "UNKNOWN", "NO_DATA"]

section Pages

variable (text : Uppercase)

def severityOf (status : Option String) : Severity :=
  let upper := text.upper (status.getD "")
  if upper ∈ criticalStatuses then .critical
  else if upper ∈ warningStatuses then .warning
  else if upper = "" then .unknown
  else .ok

/-! ## The newest collection, over the rows -/

def snapshotAt (rows : List MetricRow) : Dict String String :=
  rows.foldl
    (fun newest row =>
      if (newest.get? row.metricCode).getD "" < row.collectedAt then newest.set row.metricCode row.collectedAt
      else newest)
    .empty

def latestSnapshot (rows : List MetricRow) : List MetricRow :=
  rows.filter fun row => row.collectedAt = ((snapshotAt rows).get? row.metricCode).getD ""

/-! ## The newest collection, in SQL -/

/-- `collected_at >= ? AND server_id IS NOT NULL AND server_id <> ''`, and the ceiling where there is one. -/
def inWindow (cutoff : String) (ceiling : Option String) (row : MetricRow) : Bool :=
  cutoff ≤ row.collectedAt && row.serverId.any (fun server => server ≠ "") &&
    ceiling.all fun ceiling => row.collectedAt ≤ ceiling

def MetricResults.window (results : MetricResults) (cutoff : String) (ceiling : Option String) : List MetricRow :=
  results.rows.filter (inWindow cutoff ceiling)

/-- `collected_at = MAX(collected_at) OVER (PARTITION BY server_id, metric_code)`. -/
def isNewest (window : List MetricRow) (row : MetricRow) : Bool :=
  window.all fun other =>
    !(other.serverId = row.serverId && other.metricCode = row.metricCode) || other.collectedAt ≤ row.collectedAt

def newestRows (window : List MetricRow) : List MetricRow := window.filter (isNewest window)

/-- A row of the grouped query. -/
structure Group where
  serverId : String
  status : Option String
  metricCode : String
  count : ℕ
  newest : String

/-- `GROUP BY server_id, status, metric_code`. -/
def severityGroups (window : List MetricRow) : List Group :=
  (groupsBy (fun row : MetricRow => (row.serverId.getD "", row.status, row.metricCode)) (newestRows window)).map
    fun group =>
      { serverId := group.1.1
        status := group.1.2.1
        metricCode := group.1.2.2
        count := group.2.length
        newest := (group.2.map MetricRow.collectedAt).foldl max "" }

structure Entry where
  worst : Severity
  criticalCodes : List String
  warningCodes : List String
  criticalRows : ℕ
  warningRows : ℕ
  asOf : String

def Entry.blank : Entry := ⟨.ok, [], [], 0, 0, ""⟩

def Entry.note (entry : Entry) (group : Group) : Entry :=
  let state := text.upper (group.status.getD "")
  let asOf := max entry.asOf group.newest
  if state ∈ criticalStatuses then
    { entry with
      worst := .critical
      criticalCodes := entry.criticalCodes ++ [group.metricCode]
      criticalRows := entry.criticalRows + group.count
      asOf := asOf }
  else if state = "WARNING" then
    { entry with
      worst := if entry.worst = .critical then .critical else .warning
      warningCodes := entry.warningCodes ++ [group.metricCode]
      warningRows := entry.warningRows + group.count
      asOf := asOf }
  else { entry with asOf := asOf }

/-- `sorted(set(codes))`, of both lists. -/
def Entry.sorted (entry : Entry) : Entry :=
  { entry with
    criticalCodes := sortedBy id (firstSeen entry.criticalCodes)
    warningCodes := sortedBy id (firstSeen entry.warningCodes) }

def fetchSeverityByServer (window : List MetricRow) (server : String) : Option Entry :=
  (((severityGroups window).foldl
    (fun severity group =>
      severity.set group.serverId (((severity.get? group.serverId).getD .blank).note text group))
    (.empty : Dict String Entry)).get? server).map Entry.sorted

/-! ## The current problems -/

def reportJudgedCodes : List String := ["PERFORMANCE_IO_LATENCY", "PAGE_LIFE_EXPECTANCY"]

/-- The rows the query selects. -/
def problemRows (window : List MetricRow) : List MetricRow :=
  (newestRows window).filter fun row =>
    asciiUpper (row.status.getD "") ∉ ["OK", "LOGGING"] || row.metricCode ∈ reportJudgedCodes

/-- `ORDER BY server_id, metric_code, metric_item`; an item that is null comes first. -/
def place (row : MetricRow) : String ×ₗ String ×ₗ WithBot String :=
  toLex (row.serverId.getD "", toLex (row.metricCode, row.metricItem))

/-- `LIMIT ?`; a negative limit is none. -/
def limited (limit : ℤ) (rows : List MetricRow) : List MetricRow := if limit < 0 then rows else rows.take limit.toNat

/-- An order the store may give the selected rows in. -/
structure Ordered (window ordered : List MetricRow) : Prop where
  perm : ordered.Perm (problemRows window)
  sorted : ordered.Pairwise fun first second => place first ≤ place second

def fetchCurrentProblems (limit : ℤ) (ordered : List MetricRow) (server : String) : List MetricRow :=
  groupOf (groupsBy (fun row : MetricRow => row.serverId.getD "") (limited limit ordered)) server

/-! ## What agrees -/

def rowsOf (window : List MetricRow) (server : String) : List MetricRow :=
  window.filter fun row => row.serverId = some server

def IsWorst (rows : List MetricRow) (severity : Severity) : Prop :=
  (∃ row ∈ rows, severityOf text row.status = severity) ∧
    ∀ row ∈ rows, (severityOf text row.status).rank ≤ severity.rank

def Decided (rows : List MetricRow) : Prop :=
  (∃ row ∈ rows, severityOf text row.status = .critical) ∨
    (∃ row ∈ rows, text.upper (row.status.getD "") = "WARNING") ∨
      (∀ row ∈ rows, severityOf text row.status ≠ .warning) ∧ ∃ row ∈ rows, severityOf text row.status = .ok

/-- Every row that is not ok is among the first ones, in whatever order rows of one place come. -/
def Shown (limit : ℤ) (window : List MetricRow) : Prop :=
  ∀ row ∈ newestRows window, severityOf text row.status ≠ .ok →
    limit < 0 ∨ (((problemRows window).filter fun other => place other ≤ place row).length : ℤ) ≤ limit

end Pages

section Snapshots

variable {rows window : List MetricRow} {row : MetricRow} {server : String}

theorem getD_snapshotAt (rows : List MetricRow) (code : String) :
    (∀ row ∈ rows, row.metricCode = code → row.collectedAt ≤ ((snapshotAt rows).get? code).getD "") ∧
      (((snapshotAt rows).get? code).getD "" = "" ∨
        ∃ row ∈ rows, row.metricCode = code ∧ ((snapshotAt rows).get? code).getD "" = row.collectedAt) := by
  induction rows using List.reverseRecOn with
  | nil => exact ⟨fun _ member => absurd member List.not_mem_nil, .inl rfl⟩
  | append_singleton rows last ih =>
    have step : ((snapshotAt (rows ++ [last])).get? code).getD "" = if last.metricCode = code then
        max (((snapshotAt rows).get? code).getD "") last.collectedAt else ((snapshotAt rows).get? code).getD "" := by
      rw [snapshotAt, List.foldl_append, List.foldl_cons, List.foldl_nil]
      change (Dict.get? (if ((snapshotAt rows).get? last.metricCode).getD "" < last.collectedAt then _ else _)
        _).getD _ = _
      split
      · next later =>
          rw [Dict.get?_set]
          by_cases same : last.metricCode = code
          · rw [if_pos same, if_pos same.symm, ← same, max_eq_right later.le]
            rfl
          · rw [if_neg same, if_neg (Ne.symm same)]
            rfl
      · next not_later =>
          split
          · next same => exact (max_eq_left (same ▸ not_lt.mp not_later)).symm
          · rfl
    rw [step]
    obtain ⟨above, reached⟩ := ih
    constructor
    · intro row member own
      rcases List.mem_append.mp member with before | here
      · split
        · exact (above row before own).trans (le_max_left _ _)
        · exact above row before own
      · obtain rfl := List.mem_singleton.mp here
        rw [if_pos own]
        exact le_max_right _ _
    · have kept : ((snapshotAt rows).get? code).getD "" = "" ∨ ∃ row ∈ rows ++ [last], row.metricCode = code ∧
          ((snapshotAt rows).get? code).getD "" = row.collectedAt := by
        rcases reached with nothing | ⟨row, member, both⟩
        · exact .inl nothing
        · exact .inr ⟨row, List.mem_append_left _ member, both⟩
      split
      · next same =>
          rcases max_choice (((snapshotAt rows).get? code).getD "") last.collectedAt with is | is
          · rwa [is]
          · exact .inr ⟨last, List.mem_append_right _ (List.mem_singleton_self _), same, is⟩
      · exact kept

theorem empty_le (stamp : String) : "" ≤ stamp :=
  not_lt.mp fun less => by simpa using String.lt_iff_toList_lt.mp less

theorem mem_latestSnapshot : row ∈ latestSnapshot rows ↔
    row ∈ rows ∧ ∀ other ∈ rows, other.metricCode = row.metricCode → other.collectedAt ≤ row.collectedAt := by
  rw [latestSnapshot, List.mem_filter, decide_eq_true_eq]
  refine and_congr_right fun member => ?_
  obtain ⟨above, reached⟩ := getD_snapshotAt rows row.metricCode
  constructor
  · intro same other there own
    rw [same]
    exact above other there own
  · intro last
    refine le_antisymm (above row member rfl) ?_
    rcases reached with nothing | ⟨other, there, own, same⟩
    · rw [nothing]
      exact empty_le _
    · rw [same]
      exact last other there own

theorem mem_newestRows : row ∈ newestRows window ↔ row ∈ window ∧ ∀ other ∈ window, other.serverId = row.serverId →
    other.metricCode = row.metricCode → other.collectedAt ≤ row.collectedAt := by
  rw [newestRows, List.mem_filter, isNewest, List.all_eq_true]
  refine and_congr_right fun _ => forall₂_congr fun other _ => ?_
  simp only [Bool.or_eq_true, Bool.not_eq_true', Bool.and_eq_false_iff, decide_eq_false_iff_not, decide_eq_true_eq]
  tauto

/-- The two ways to the newest collection keep the same rows. -/
theorem mem_latestSnapshot_rowsOf :
    row ∈ latestSnapshot (rowsOf window server) ↔ row ∈ newestRows window ∧ row.serverId = some server := by
  rw [mem_latestSnapshot, mem_newestRows, rowsOf]
  simp only [List.mem_filter, decide_eq_true_eq]
  constructor
  · rintro ⟨⟨member, own⟩, last⟩
    exact ⟨⟨member, fun other there same code => last other ⟨there, same.trans own⟩ code⟩, own⟩
  · rintro ⟨⟨member, last⟩, own⟩
    exact ⟨⟨member, own⟩, fun other ⟨there, same⟩ code => last other there (same.trans own.symm) code⟩

end Snapshots

/-! ## One server's severity -/

section Severities

variable {text : Uppercase} {rows window : List MetricRow} {server : String} {entry : Entry} {group : Group}
  {severity : Severity}

theorem severityOf_critical_iff {status : Option String} :
    severityOf text status = .critical ↔ text.upper (status.getD "") ∈ criticalStatuses := by
  unfold severityOf
  dsimp only
  split
  · next critical => exact ⟨fun _ => critical, fun _ => rfl⟩
  · next other =>
      refine ⟨fun same => ?_, fun critical => absurd critical other⟩
      split at same
      · cases same
      · split at same <;> cases same

/-- The worst of some statuses, as the loop over the groups finds it. -/
def worstOf (text : Uppercase) (statuses : List (Option String)) : Severity :=
  if ∃ status ∈ statuses, severityOf text status = .critical then .critical
  else if ∃ status ∈ statuses, text.upper (status.getD "") = "WARNING" then .warning
  else .ok

theorem worst_note : (entry.note text group).worst = if severityOf text group.status = .critical then .critical
    else if text.upper (group.status.getD "") = "WARNING" then
      (if entry.worst = .critical then .critical else .warning)
    else entry.worst := by
  rw [Entry.note]
  simp only [severityOf_critical_iff]
  split
  · rfl
  · split <;> rfl

theorem worst_foldl (groups : List Group) :
    (groups.foldl (Entry.note text) .blank).worst = worstOf text (groups.map Group.status) := by
  induction groups using List.reverseRecOn with
  | nil => rfl
  | append_singleton groups last ih =>
    rw [List.foldl_append, List.foldl_cons, List.foldl_nil, worst_note, ih, worstOf, worstOf, List.map_append]
    simp only [List.mem_append, List.map_cons, List.map_nil, List.mem_singleton, or_and_right, exists_or,
      exists_eq_left]
    by_cases critical : severityOf text last.status = .critical
    · simp only [critical, or_true, if_true]
    · by_cases warning : text.upper (last.status.getD "") = "WARNING"
      · simp only [critical, warning, or_false, or_true, if_true, if_false]
        split
        · rfl
        · split <;> rfl
      · simp only [critical, warning, or_false, if_false]

/-- The statuses of a server's groups are those of its newest rows. -/
theorem exists_group_iff {holds : Option String → Prop} :
    (∃ status ∈ ((severityGroups window).filter fun group => group.serverId = server).map Group.status,
      holds status) ↔ ∃ row ∈ newestRows window, row.serverId.getD "" = server ∧ holds row.status := by
  have keys := mem_keys_groupsBy (fun row : MetricRow => (row.serverId.getD "", row.status, row.metricCode))
    (newestRows window)
  constructor
  · rintro ⟨_, member, holding⟩
    obtain ⟨group, own, rfl⟩ := List.mem_map.mp member
    obtain ⟨there, named⟩ := List.mem_filter.mp own
    obtain ⟨source, listed, rfl⟩ := List.mem_map.mp there
    obtain ⟨row, here, same⟩ := (keys source.1).mp (List.mem_map_of_mem listed)
    refine ⟨row, here, ?_, ?_⟩
    · exact (congrArg Prod.fst same).trans (of_decide_eq_true named)
    · have statuses : row.status = source.1.2.1 := congrArg (fun key => key.2.1) same
      rwa [statuses]
  · rintro ⟨row, member, named, holding⟩
    obtain ⟨source, listed, same⟩ := List.mem_map.mp ((keys _).mpr ⟨row, member, rfl⟩)
    refine ⟨row.status, List.mem_map.mpr ⟨_, List.mem_filter.mpr ⟨List.mem_map_of_mem listed, ?_⟩, ?_⟩, holding⟩
    · dsimp only
      rw [same]
      exact decide_eq_true named
    · dsimp only
      rw [same]

/-- What a server is answered is told by the rows that are current. -/
theorem worst_fetched (named : server ≠ "") : (fetchSeverityByServer text window server).map Entry.worst =
    if latestSnapshot (rowsOf window server) = [] then none
    else some (worstOf text ((latestSnapshot (rowsOf window server)).map MetricRow.status)) := by
  have own : ∀ row : MetricRow, row.serverId.getD "" = server ↔ row.serverId = some server := by
    intro row
    cases row.serverId with
    | none => simp [named.symm]
    | some other => simp
  have current : ∀ holds : Option String → Prop,
      (∃ status ∈ ((severityGroups window).filter fun group => group.serverId = server).map Group.status,
        holds status) ↔ ∃ status ∈ (latestSnapshot (rowsOf window server)).map MetricRow.status, holds status := by
    intro holds
    rw [exists_group_iff]
    simp only [own]
    constructor
    · rintro ⟨row, member, ours, holding⟩
      exact ⟨_, List.mem_map_of_mem (mem_latestSnapshot_rowsOf.mpr ⟨member, ours⟩), holding⟩
    · rintro ⟨_, member, holding⟩
      obtain ⟨row, there, rfl⟩ := List.mem_map.mp member
      obtain ⟨newest, ours⟩ := mem_latestSnapshot_rowsOf.mp there
      exact ⟨row, newest, ours, holding⟩
  have nothing_iff : (severityGroups window).filter (fun group => group.serverId = server) = [] ↔
      latestSnapshot (rowsOf window server) = [] := by
    have some_iff := not_congr (current fun _ => True)
    simp only [and_true, not_exists, ← List.eq_nil_iff_forall_not_mem, List.map_eq_nil_iff] at some_iff
    exact some_iff
  rw [fetchSeverityByServer, Dict.get?_foldl_set, Option.map_map]
  simp only [nothing_iff]
  split
  · rfl
  · rw [Option.map_some]
    change some ((List.filter _ _).foldl (Entry.note text) .blank).worst = _
    rw [worst_foldl, worstOf, worstOf]
    simp only [current]

variable {one two : Severity}

theorem rank_injective (same : one.rank = two.rank) : one = two := by
  cases one <;> cases two <;> first | rfl | cases same

theorem IsWorst.unique (first : IsWorst text rows one) (second : IsWorst text rows two) : one = two := by
  obtain ⟨⟨row, member, rfl⟩, above⟩ := first
  obtain ⟨⟨other, there, rfl⟩, other_above⟩ := second
  exact rank_injective (le_antisymm (other_above row member) (above other there))

/-- What the loop finds is the worst exactly where the rows decide it by the statuses the loop knows. -/
theorem isWorst_worstOf_iff : IsWorst text rows (worstOf text (rows.map MetricRow.status)) ↔ Decided text rows := by
  unfold worstOf Decided IsWorst
  simp only [List.mem_map, exists_exists_and_eq_and]
  by_cases critical : ∃ row ∈ rows, severityOf text row.status = .critical
  · simp only [critical, if_true, true_or, iff_true, true_and]
    intro row _
    cases severityOf text row.status <;> decide
  · have below : ∀ row ∈ rows, severityOf text row.status ≠ .critical := fun row member same =>
      critical ⟨row, member, same⟩
    by_cases warning : ∃ row ∈ rows, text.upper (row.status.getD "") = "WARNING"
    · simp only [critical, warning, if_true, if_false, true_or, or_true, iff_true]
      constructor
      · obtain ⟨row, member, spelled⟩ := warning
        refine ⟨row, member, ?_⟩
        unfold severityOf
        dsimp only
        rw [spelled]
        decide
      · intro row member
        have not_critical := below row member
        generalize severityOf text row.status = severity at not_critical ⊢
        cases severity with
        | critical => exact absurd rfl not_critical
        | warning => exact le_rfl
        | ok => decide
        | unknown => decide
    · simp only [critical, warning, if_false, false_or]
      rw [and_comm]
      refine and_congr_left fun _ => forall₂_congr fun row member => ?_
      have not_critical := below row member
      generalize severityOf text row.status = severity at not_critical ⊢
      cases severity with
      | critical => exact absurd rfl not_critical
      | warning => simp [Severity.rank]
      | ok => simp [Severity.rank]
      | unknown => simp [Severity.rank]

theorem answered_iff (named : server ≠ "") :
    (∀ severity, (fetchSeverityByServer text window server).map Entry.worst = some severity ↔
      IsWorst text (latestSnapshot (rowsOf window server)) severity) ↔
      (latestSnapshot (rowsOf window server) ≠ [] → Decided text (latestSnapshot (rowsOf window server))) := by
  rw [worst_fetched named]
  by_cases nothing : latestSnapshot (rowsOf window server) = []
  · simp [nothing, IsWorst]
  · rw [if_neg nothing, ← isWorst_worstOf_iff]
    simp only [ne_eq, nothing, not_false_eq_true, true_imp_iff, Option.some_inj]
    constructor
    · exact fun answers => (answers _).mp rfl
    · exact fun worst severity => ⟨fun same => same ▸ worst, fun other => worst.unique other⟩

end Severities

/-! ## The problems within the limit -/

section Problems

variable {text : Uppercase} {results : MetricResults} {window ordered : List MetricRow} {row : MetricRow}
  {server : String} {limit : ℤ}

/-- A row that is not ok is selected. -/
theorem mem_problemRows (member : row ∈ newestRows window) (problem : severityOf text row.status ≠ .ok) :
    row ∈ problemRows window := by
  refine List.mem_filter.mpr ⟨member, ?_⟩
  rw [Bool.or_eq_true, decide_eq_true_eq]
  refine .inl fun quiet => problem ?_
  have plain : ∀ c ∈ (row.status.getD "").toList, c.toNat < 128 := by
    intro c inside
    have letters : c.toUpper ∈ "OKLOGGING".toList := by
      have upper : c.toUpper ∈ (asciiUpper (row.status.getD "")).toList := by
        rw [asciiUpper, String.toList_ofList]
        exact List.mem_map_of_mem inside
      rcases List.mem_cons.mp quiet with same | rest
      · rw [same] at upper
        exact List.mem_of_mem_take (i := 2) upper
      · rw [List.mem_singleton.mp rest] at upper
        exact List.mem_of_mem_drop (i := 2) upper
    have small : "OKLOGGING".toList.all (fun letter => letter.toNat < 128) = true := by decide +kernel
    have upper_small := of_decide_eq_true (List.all_eq_true.mp small _ letters)
    unfold Char.toUpper at upper_small
    split at upper_small
    · next lower => exact lt_of_le_of_lt (UInt32.le_iff_toNat_le.mp lower.2) (by decide)
    · exact upper_small
  unfold severityOf
  dsimp only
  rw [text.ascii _ plain]
  rcases List.mem_cons.mp quiet with same | rest
  · rw [same]
    decide
  · rw [List.mem_singleton.mp rest]
    decide

theorem mem_fetchCurrentProblems : row ∈ fetchCurrentProblems limit ordered server ↔
    row ∈ limited limit ordered ∧ row.serverId.getD "" = server := by
  rw [fetchCurrentProblems, groupOf_groupsBy, List.mem_filter, decide_eq_true_eq]

theorem nodup_problemRows (results : MetricResults) (cutoff : String) (ceiling : Option String) :
    (problemRows (results.window cutoff ceiling)).Nodup :=
  ((results.once.of_map.filter _).filter _).filter _

/-- With as many rows up to its place as the limit, a row is among the first. -/
theorem mem_limited_of_few (order : Ordered window ordered) (member : row ∈ problemRows window)
    (few : limit < 0 ∨ (((problemRows window).filter fun other => place other ≤ place row).length : ℤ) ≤ limit) :
    row ∈ limited limit ordered := by
  have there := order.perm.mem_iff.mpr member
  unfold limited
  split
  · exact there
  · next some_limit =>
      by_contra behind
      have split := List.take_append_drop limit.toNat ordered
      have last : row ∈ ordered.drop limit.toNat := by
        rw [← split] at there
        exact (List.mem_append.mp there).resolve_left behind
      have sorted := order.sorted
      rw [← split, List.pairwise_append] at sorted
      have before : ∀ other ∈ ordered.take limit.toNat ++ [row], place other ≤ place row := by
        intro other inside
        rcases List.mem_append.mp inside with first | same
        · exact sorted.2.2 other first row last
        · rw [List.mem_singleton.mp same]
      have sub : (ordered.take limit.toNat ++ [row]).Sublist (ordered.filter fun other => place other ≤ place row) := by
        rw [← List.filter_eq_self.mpr fun other inside => decide_eq_true (before other inside)]
        refine List.Sublist.filter _ ?_
        conv_rhs => rw [← split]
        exact (List.Sublist.refl _).append (List.singleton_sublist.mpr last)
      have longer := sub.length_le
      rw [(order.perm.filter _).length_eq, List.length_append, List.length_singleton, List.length_take] at longer
      have enough := few.resolve_left some_limit
      have inside : 0 < (ordered.drop limit.toNat).length := List.length_pos_of_mem last
      rw [List.length_drop] at inside
      omega

theorem few_of_mem_limited (once : (problemRows window).Nodup) (member : row ∈ problemRows window)
    (first : ∀ ordered, Ordered window ordered → row ∈ limited limit ordered) :
    limit < 0 ∨ (((problemRows window).filter fun other => place other ≤ place row).length : ℤ) ≤ limit := by
  rw [or_iff_not_imp_left]
  intro some_limit
  -- the order in which every other row of its place comes before it
  have whole := List.perm_cons_erase member
  have fresh : row ∉ (problemRows window).erase row := once.not_mem_erase
  generalize (problemRows window).erase row = others at whole fresh
  have order : Ordered window (sortedBy place (others.filter fun other => place other ≤ place row) ++
      row :: sortedBy place (others.filter fun other => !decide (place other ≤ place row))) := by
    constructor
    · refine List.perm_middle.trans (List.Perm.trans (.cons row ?_) whole.symm)
      exact ((sortedBy_perm _ _).append (sortedBy_perm _ _)).trans (List.filter_append_perm _ others)
    · rw [List.pairwise_append, List.pairwise_cons]
      refine ⟨sortedBy_pairwise _ _, ⟨fun other after => ?_, sortedBy_pairwise _ _⟩, fun other before last after => ?_⟩
      · have later := (List.mem_filter.mp ((mem_sortedBy _ _ _).mp after)).2
        exact (not_le.mp (by simpa using later)).le
      · have earlier := of_decide_eq_true (List.mem_filter.mp ((mem_sortedBy _ _ _).mp before)).2
        rcases List.mem_cons.mp after with rfl | behind
        · exact earlier
        · have later := (List.mem_filter.mp ((mem_sortedBy _ _ _).mp behind)).2
          exact earlier.trans (not_le.mp (by simpa using later)).le
  have taken := first _ order
  rw [limited, if_neg some_limit] at taken
  have short : (others.filter fun other => place other ≤ place row).length < limit.toNat := by
    by_contra long
    rw [← (sortedBy_perm place _).length_eq] at long
    rw [List.take_append_of_le_length (not_lt.mp long)] at taken
    exact fresh (List.mem_filter.mp ((mem_sortedBy _ _ _).mp (List.mem_of_mem_take taken))).1
  rw [(whole.filter _).length_eq, List.filter_cons_of_pos (by simp), List.length_cons]
  omega

end Problems

/-- The worst severity a server is answered is the worst of its rows that are current, and every row that is current and
not ok is answered in every order, on exactly the contents that decide it and stay within the limit. -/
theorem one_severity_iff (text : Uppercase) (results : MetricResults) (cutoff : String) (ceiling : Option String)
    (limit : ℤ) :
    ((∀ server ≠ "", ∀ severity,
        (fetchSeverityByServer text (results.window cutoff ceiling) server).map Entry.worst = some severity ↔
          IsWorst text (latestSnapshot (rowsOf (results.window cutoff ceiling) server)) severity) ∧
      ∀ ordered, Ordered (results.window cutoff none) ordered →
        ∀ server, ∀ row ∈ latestSnapshot (rowsOf (results.window cutoff none) server),
          severityOf text row.status ≠ .ok → row ∈ fetchCurrentProblems limit ordered server) ↔
      (∀ server ≠ "", latestSnapshot (rowsOf (results.window cutoff ceiling) server) ≠ [] →
        Decided text (latestSnapshot (rowsOf (results.window cutoff ceiling) server))) ∧
        Shown text limit (results.window cutoff none) := by
  refine and_congr (forall₂_congr fun server named => answered_iff named) ?_
  constructor
  · intro answers row newest problem
    have selected := mem_problemRows newest problem
    obtain ⟨server, own⟩ : ∃ server, row.serverId = some server := by
      have inside := (List.mem_filter.mp (mem_newestRows.mp newest).1).2
      cases there : row.serverId with
      | none => simp [inWindow, there] at inside
      | some server => exact ⟨server, rfl⟩
    refine few_of_mem_limited (nodup_problemRows results cutoff none) selected fun ordered order => ?_
    have current := mem_latestSnapshot_rowsOf.mpr ⟨newest, own⟩
    exact (mem_fetchCurrentProblems.mp (answers ordered order server row current problem)).1
  · intro shown ordered order server row current problem
    obtain ⟨newest, own⟩ := mem_latestSnapshot_rowsOf.mp current
    refine mem_fetchCurrentProblems.mpr ⟨?_, by rw [own]; rfl⟩
    exact mem_limited_of_few order (mem_problemRows newest problem) (shown row newest problem)

/-- A server whose one metric returned no data. -/
def noData : List MetricRow :=
  [⟨1, some "192.0.2.10", "BACKUP_AGE", none, none, none, some "NO_DATA", none, "2026-10-01T00:00:00Z"⟩]

def asciiText : Uppercase := ⟨asciiUpper, fun _ _ => rfl⟩

/-- One page answers it ok, and the other shows a warning. -/
theorem no_data_is_answered_ok :
    (fetchSeverityByServer asciiText noData "192.0.2.10").map Entry.worst = some .ok ∧
      IsWorst asciiText (latestSnapshot (rowsOf noData "192.0.2.10")) .warning := by
  have kept : latestSnapshot (rowsOf noData "192.0.2.10") = noData := by decide +kernel
  refine ⟨by decide +kernel, ?_⟩
  rw [kept]
  exact ⟨⟨_, List.mem_singleton_self _, by decide +kernel⟩, fun row member => by
    rw [List.mem_singleton.mp member]
    decide +kernel⟩

end DbaBrain.Db.CurrentSeverity
