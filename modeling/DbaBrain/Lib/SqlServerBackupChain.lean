import DbaBrain.Foundation.Selection
import DbaBrain.Foundation.Text
import DbaBrain.Lib.BackupKinds

/-!
# The restore chain of SQL Server backups

A restore to a moment applies one chain a database: the newest FULL at or
before the moment, the newest DIFF taken after that FULL, and the LOGs after
whichever of the two is the baseline, up to the first LOG that reaches the
moment.  Timestamps are any linear order; the source compares them only.
`lower` stands for Python's `str.lower`.
-/

namespace DbaBrain.Lib.SqlServerBackupChain

open DbaBrain.Foundation DbaBrain.Foundation.Selection

/-! ## The kind of a folder -/

/-- `str.upper()` of a character, where the result is ASCII. -/
def upperChars (c : Char) : List Char :=
  if c = 'ı' then ['I']
  else if c = 'ﬀ' then ['F', 'F']
  else if c = 'ﬁ' then ['F', 'I']
  else if c = 'ﬂ' then ['F', 'L']
  else if c = 'ﬃ' then ['F', 'F', 'I']
  else if c = 'ﬄ' then ['F', 'F', 'L']
  else [c.toUpper]

/-- `kind_from_folder`; no other character's upper case has a letter of the three kinds. -/
@[irreducible]
def kindFromFolder (name : String) : Option BackupKind :=
  let upper := (Text.strip name).toList.flatMap upperChars
  if upper = "FULL".toList then some .full
  else if upper = "DIFF".toList then some .diff
  else if upper = "LOG".toList then some .log
  else none

theorem kindFromFolder_diff : kindFromFolder "DIFF" = some .diff := by decide +kernel

theorem kindFromFolder_log : kindFromFolder "LOG" = some .log := by decide +kernel

theorem upperChars_toLower (c : Char) : upperChars c.toLower = upperChars c := by
  by_cases letter : 65 ≤ c.toNat ∧ c.toNat ≤ 90
  · have every : ∀ code < 91, 65 ≤ code → upperChars (Char.ofNat code).toLower = upperChars (Char.ofNat code) := by
      decide
    have same := every c.toNat (by omega) letter.1
    rwa [Char.ofNat_toNat] at same
  · rw [Text.toLower_eq_self (by omega)]

/-- A folder that is spelled like a kind, but for the case of its letters, is of that kind. -/
theorem kindFromFolder_of_asciiLower {name folder : String} (alike : Text.asciiLower name = Text.asciiLower folder)
    (blankless : ∀ c ∈ (Text.asciiLower folder).toList, Text.isSpace c = false) :
    kindFromFolder name = kindFromFolder folder := by
  have upper (text : String) : (Text.asciiLower text).toList.flatMap upperChars = text.toList.flatMap upperChars := by
    rw [Text.asciiLower, String.toList_ofList, List.flatMap_map]
    simp only [upperChars_toLower]
  unfold kindFromFolder
  rw [Text.strip_eq_self_of_asciiLower alike blankless, Text.strip_eq_self_of_asciiLower rfl blankless, ← upper name,
    alike, upper folder]

/-- One backup file as the chain rule sees it; a folder that is no kind gives `none`. -/
structure Candidate (ι τ : Type*) where
  item : ι
  database : String
  kind : Option BackupKind
  timestamp : τ

structure ChainChoice (ι : Type*) where
  selected : List ι
  unresolved : List String
  lines : List String

structure Chain (ι τ : Type*) where
  full : Candidate ι τ
  diff : Option (Candidate ι τ)
  logs : List (Candidate ι τ)

variable {ι τ : Type*} [LinearOrder τ]

def Chain.files (chain : Chain ι τ) : List (Candidate ι τ) :=
  chain.full :: chain.diff.toList ++ chain.logs

/-- `until is None or timestamp <= until`. -/
def atOrBefore : Option τ → τ → Bool
  | none, _ => true
  | some moment, timestamp => decide (timestamp ≤ moment)

def fullsOf (moment : Option τ) (files : List (Candidate ι τ)) : List (Candidate ι τ) :=
  files.filter fun c => c.kind = some .full && atOrBefore moment c.timestamp

def diffsOf (moment : Option τ) (full : Candidate ι τ) (files : List (Candidate ι τ)) :
    List (Candidate ι τ) :=
  files.filter fun c => c.kind = some .diff && full.timestamp ≤ c.timestamp && atOrBefore moment c.timestamp

def logsAfter (baseline : τ) (files : List (Candidate ι τ)) : List (Candidate ι τ) :=
  sortedBy Candidate.timestamp (files.filter fun c => c.kind = some .log && baseline ≤ c.timestamp)

/-- The LOGs up to and including the first that reaches the moment. -/
def cutLogs (moment : Option τ) (logs : List (Candidate ι τ)) : List (Candidate ι τ) :=
  match moment with
  | none => logs
  | some moment => throughFirst (fun log => moment ≤ log.timestamp) logs

def chainFrom (moment : Option τ) (full : Candidate ι τ) (files : List (Candidate ι τ)) : Chain ι τ :=
  let diff := (diffsOf moment full files).argmax Candidate.timestamp
  ⟨full, diff, cutLogs moment (logsAfter (diff.getD full).timestamp files)⟩

/-- The chain of one database's files, or nothing when no FULL is at or before the moment. -/
def chainOf (moment : Option τ) (files : List (Candidate ι τ)) : Option (Chain ι τ) :=
  ((fullsOf moment files).argmax Candidate.timestamp).map fun full => chainFrom moment full files

/-- `files[0].database or "(no database folder)"`. -/
def databaseName (files : List (Candidate ι τ)) : String :=
  match files with
  | [] => "(no database folder)"
  | first :: _ => if first.database = "" then "(no database folder)" else first.database

def chainLine (files : List (Candidate ι τ)) : Option (Chain ι τ) → String
  | none => databaseName files ++ ": no FULL at or before the moment - copied by its window instead"
  | some chain =>
      databaseName files ++ ": FULL 1 + DIFF " ++ (if chain.diff.isSome then "1" else "0") ++ " + LOG " ++
        toString chain.logs.length ++ " of " ++ toString files.length ++ " file(s) on the source"

/-- The files of each database, in the order of the lower-cased names. -/
def byDatabase (lower : String → String) (candidates : List (Candidate ι τ)) :
    List (String × List (Candidate ι τ)) :=
  sortedBy Prod.fst (groupsBy (fun c => lower c.database) candidates)

def chosenFiles (moment : Option τ) (files : List (Candidate ι τ)) : List (Candidate ι τ) :=
  ((chainOf moment files).map Chain.files).getD []

/-- The items a restore to `moment` (`none` for the latest) needs, oldest first. -/
def restoreChain (lower : String → String) (candidates : List (Candidate ι τ)) (moment : Option τ) :
    ChainChoice ι :=
  let groups := byDatabase lower candidates
  let chosen := groups.flatMap fun entry => chosenFiles moment entry.2
  { selected := (sortedBy (fun c => toLex (c.timestamp, lower c.database)) chosen).map Candidate.item
    unresolved := (groups.filter fun entry => (chainOf moment entry.2).isNone).map fun entry =>
      databaseName entry.2
    lines := groups.map fun entry => chainLine entry.2 (chainOf moment entry.2) }

/-! ## What the chain is made of -/

variable {moment : Option τ} {files : List (Candidate ι τ)} {c : Candidate ι τ} {lower : String → String}
  {candidates : List (Candidate ι τ)}

theorem mem_fullsOf :
    c ∈ fullsOf moment files ↔ c ∈ files ∧ c.kind = some .full ∧ atOrBefore moment c.timestamp = true := by
  simp [fullsOf]

variable {full : Candidate ι τ} {key : String}

theorem mem_diffsOf :
    c ∈ diffsOf moment full files ↔ c ∈ files ∧ c.kind = some .diff ∧ full.timestamp ≤ c.timestamp ∧
      atOrBefore moment c.timestamp = true := by
  simp [diffsOf, and_assoc]

/-- The chosen FULL is at least as new as every FULL the moment admits. -/
theorem le_chosen_full (chosen : (fullsOf moment files).argmax Candidate.timestamp = some full) (member : c ∈ files)
    (kind : c.kind = some .full) (admitted : atOrBefore moment c.timestamp = true) : c.timestamp ≤ full.timestamp :=
  List.le_of_mem_argmax (mem_fullsOf.mpr ⟨member, kind, admitted⟩) (Option.mem_def.mpr chosen)

/-- A chosen chain has a newest FULL, and no file of it is older. -/
theorem chainOf_spec {chain : Chain ι τ} (chosen : chainOf moment files = some chain) :
    (chain.full ∈ files ∧ chain.full.kind = some .full) ∧
      (∀ c ∈ files, c.kind = some .full → atOrBefore moment c.timestamp = true → c.timestamp ≤ chain.full.timestamp) ∧
      ∀ c ∈ chain.files, c ∈ files ∧ chain.full.timestamp ≤ c.timestamp := by
  obtain ⟨full, found, rfl⟩ := Option.map_eq_some_iff.mp chosen
  obtain ⟨member, kind, -⟩ := mem_fullsOf.mp (List.argmax_mem (Option.mem_def.mpr found))
  refine ⟨⟨member, kind⟩, fun c there is_full admitted => le_chosen_full found there is_full admitted, ?_⟩
  intro c among
  unfold Chain.files chainFrom at among
  dsimp only at among
  have dated : full.timestamp ≤
      (((diffsOf moment full files).argmax Candidate.timestamp).getD full).timestamp := by
    cases latest : (diffsOf moment full files).argmax Candidate.timestamp with
    | none => exact le_refl _
    | some diff => exact (mem_diffsOf.mp (List.argmax_mem (Option.mem_def.mpr latest))).2.2.1
  rcases List.mem_append.mp among with baseline | log
  · rcases List.mem_cons.mp baseline with rfl | is_diff
    · exact ⟨member, le_refl _⟩
    · have latest := List.argmax_mem (Option.mem_def.mpr (Option.mem_toList.mp is_diff))
      obtain ⟨there, -, after, -⟩ := mem_diffsOf.mp latest
      exact ⟨there, after⟩
  · have after : c ∈ logsAfter (((diffsOf moment full files).argmax Candidate.timestamp).getD full).timestamp files := by
      cases moment with
      | none => exact log
      | some moment => exact (throughFirst_sublist _ _).subset log
    unfold logsAfter at after
    rw [mem_sortedBy, List.mem_filter] at after
    simp only [Bool.and_eq_true, decide_eq_true_eq] at after
    exact ⟨after.1, dated.trans after.2.2⟩

/-! ## Leaving files out -/

omit [LinearOrder τ] in
theorem filter_keep_eq {keep select : Candidate ι τ → Bool} (kept : ∀ c ∈ files, select c = true → keep c = true) :
    (files.filter keep).filter select = files.filter select := by
  rw [List.filter_filter]
  apply List.filter_congr
  intro c member
  cases selected : select c with
  | false => rfl
  | true => rw [kept c member selected, Bool.true_and]

section Filtered

variable {moment : Option τ} {files : List (Candidate ι τ)} {keep : Candidate ι τ → Bool}

theorem chainFrom_filter {full : Candidate ι τ}
    (kept : ∀ c ∈ files, full.timestamp ≤ c.timestamp → keep c = true) :
    chainFrom moment full (files.filter keep) = chainFrom moment full files := by
  have diffs : diffsOf moment full (files.filter keep) = diffsOf moment full files := by
    apply filter_keep_eq
    intro c member selected
    simp only [Bool.and_eq_true, decide_eq_true_eq] at selected
    exact kept c member selected.1.2
  have logs {baseline : τ} (after : full.timestamp ≤ baseline) :
      logsAfter baseline (files.filter keep) = logsAfter baseline files := by
    unfold logsAfter
    congr 1
    apply filter_keep_eq
    intro c member selected
    simp only [Bool.and_eq_true, decide_eq_true_eq] at selected
    exact kept c member (after.trans selected.2)
  unfold chainFrom
  rw [diffs]
  dsimp only
  rw [logs]
  cases chosen : (diffsOf moment full files).argmax Candidate.timestamp with
  | none => exact le_refl _
  | some diff => exact (mem_diffsOf.mp (List.argmax_mem (Option.mem_def.mpr chosen))).2.2.1

/-- A database's chain does not change when only files older than its FULL are left out. -/
theorem chainOf_filter
    (kept : ∀ full, (fullsOf moment files).argmax Candidate.timestamp = some full →
      ∀ c ∈ files, full.timestamp ≤ c.timestamp → keep c = true) :
    chainOf moment (files.filter keep) = chainOf moment files := by
  have fulls : fullsOf moment (files.filter keep) = (fullsOf moment files).filter keep := by
    unfold fullsOf
    rw [List.filter_filter, List.filter_filter]
    apply List.filter_congr
    intro c member
    rw [Bool.and_comm]
  unfold chainOf
  rw [fulls]
  cases chosen : (fullsOf moment files).argmax Candidate.timestamp with
  | none =>
    rw [List.argmax_eq_none.mp chosen]
    rfl
  | some full =>
    have member := (mem_fullsOf.mp (List.argmax_mem (Option.mem_def.mpr chosen))).1
    have after := kept full chosen
    rw [argmax_filter chosen (after full member (le_refl _)), Option.map_some, Option.map_some,
      chainFrom_filter after]

end Filtered

/-! ## A listing read a database at a time -/

def filesOf (lower : String → String) (candidates : List (Candidate ι τ)) (key : String) :
    List (Candidate ι τ) :=
  candidates.filter fun c => lower c.database = key

def keysOf (lower : String → String) (candidates : List (Candidate ι τ)) : List String :=
  firstSeen (candidates.map fun c => lower c.database)

omit [LinearOrder τ] in
theorem byDatabase_eq (lower : String → String) (candidates : List (Candidate ι τ)) :
    byDatabase lower candidates =
      (sortedBy id (keysOf lower candidates)).map fun key => (key, filesOf lower candidates key) := by
  rw [byDatabase, groupsBy_eq, sortedBy_fst_map]
  rfl

omit [LinearOrder τ] in
theorem keysOf_nodup (lower : String → String) (candidates : List (Candidate ι τ)) :
    (keysOf lower candidates).Nodup :=
  firstSeen_nodup _

omit [LinearOrder τ] in
theorem mem_keysOf : key ∈ keysOf lower candidates ↔ ∃ c ∈ candidates, lower c.database = key := by
  simp [keysOf]

omit [LinearOrder τ] in
theorem filesOf_eq_nil (absent : key ∉ keysOf lower candidates) : filesOf lower candidates key = [] := by
  rw [filesOf, List.filter_eq_nil_iff]
  intro c member
  simpa using fun same => absent (mem_keysOf.mpr ⟨c, member, same⟩)

theorem mem_selected {item : ι} :
    item ∈ (restoreChain lower candidates moment).selected ↔
      ∃ key chain, chainOf moment (filesOf lower candidates key) = some chain ∧ ∃ c ∈ chain.files, c.item = item := by
  unfold restoreChain
  simp only [List.mem_map, mem_sortedBy, List.mem_flatMap]
  constructor
  · rintro ⟨c, ⟨entry, group, chosen⟩, rfl⟩
    rw [byDatabase_eq] at group
    obtain ⟨key, -, rfl⟩ := List.mem_map.mp group
    unfold chosenFiles at chosen
    cases found : chainOf moment (filesOf lower candidates key) with
    | none =>
      rw [found] at chosen
      cases chosen
    | some chain =>
      rw [found] at chosen
      exact ⟨key, chain, found, c, chosen, rfl⟩
  · rintro ⟨key, chain, found, c, member, rfl⟩
    refine ⟨c, ⟨(key, filesOf lower candidates key), ?_, ?_⟩, rfl⟩
    · rw [byDatabase_eq]
      refine List.mem_map.mpr ⟨key, (mem_sortedBy _ _ _).mpr ?_, rfl⟩
      have present := ((chainOf_spec found).2.2 c member).1
      unfold filesOf at present
      obtain ⟨among, name⟩ := List.mem_filter.mp present
      exact mem_keysOf.mpr ⟨c, among, of_decide_eq_true name⟩
    · unfold chosenFiles
      rw [found]
      exact member

/-- The selection reads a listing through its databases' chains and nothing else. -/
theorem selected_congr {all part : List (Candidate ι τ)} (subset : ∀ c ∈ part, c ∈ all)
    (same : ∀ key, chosenFiles moment (filesOf lower part key) = chosenFiles moment (filesOf lower all key)) :
    (restoreChain lower part moment).selected = (restoreChain lower all moment).selected := by
  have keysSubset : ∀ key ∈ keysOf lower part, key ∈ keysOf lower all := by
    intro key member
    obtain ⟨c, inPart, name⟩ := mem_keysOf.mp member
    exact mem_keysOf.mpr ⟨c, subset c inPart, name⟩
  have chosen : (byDatabase lower part).flatMap (fun entry => chosenFiles moment entry.2) =
      (byDatabase lower all).flatMap fun entry => chosenFiles moment entry.2 := by
    rw [byDatabase_eq, byDatabase_eq, List.flatMap_map, List.flatMap_map,
      sortedBy_id_filter (keysOf_nodup lower all) (keysOf_nodup lower part) keysSubset]
    simp only [same]
    apply flatMap_filter_of_nil
    intro key _ absent
    rw [decide_eq_false_iff_not] at absent
    rw [← same key, filesOf_eq_nil absent]
    rfl
  unfold restoreChain
  simp only [chosen]

end DbaBrain.Lib.SqlServerBackupChain
