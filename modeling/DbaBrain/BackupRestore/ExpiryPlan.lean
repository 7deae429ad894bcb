import DbaBrain.Foundation.Selection
import DbaBrain.Foundation.Text
import DbaBrain.Lib.BackupKinds
import DbaBrain.Lib.Coerce

/-!
# Which repository copies have outlived their retention

A database's fulls are grouped by the start of the run that wrote them, its
DIFFs and LOGs belong to the last run that started before they ended, and each
level goes by its own age.  A plan is exact about its own question: what it
expires is said below by one inductive predicate over the copies it was given.
-/

namespace DbaBrain.BackupRestore.ExpiryPlan

open DbaBrain.Lib DbaBrain.Foundation DbaBrain.Foundation.Selection
open Coerce (Instant microsecondsPerSecond)

/-- `FILE_TYPES`. -/
inductive FileType where
  | full
  | diff
  | log
  | fullBase
  | incrBase
  | manifest
  | wal
  | rmanL0
  | rmanL1
  | archivelog
  | controlfile
  | spfile
  | cert
  deriving DecidableEq

def levelOfFileType : FileType → Option BackupKind
  | .full | .fullBase | .rmanL0 => some .full
  | .diff | .incrBase | .rmanL1 => some .diff
  | .log | .wal | .archivelog => some .log
  | .manifest | .controlfile | .spfile | .cert => none

/-- The retention of an entry's offload: seconds the repository keeps a copy, by level. -/
structure BackupOffload where
  retentionFull : Int
  retentionDiff : Int
  retentionLog : Int

def BackupOffload.retentionOf (offload : BackupOffload) (fileType : FileType) : Int :=
  match (levelOfFileType fileType).getD .full with
  | .full => offload.retentionFull
  | .diff => offload.retentionDiff
  | .log => offload.retentionLog

/-- A row of `backup_files`, with the start of the run it joins and whether its copy is verified. -/
structure CatalogFile where
  fileId : Int
  backupId : String
  databaseName : Option String
  fileType : FileType
  fileName : String
  backupStartedAt : Option String
  backupEndedAt : Option String
  createdAt : String
  runStartedAt : Option String
  verified : Bool
  deriving DecidableEq

namespace CatalogFile

def level (row : CatalogFile) : Option BackupKind := levelOfFileType row.fileType

/-- `str(row.get("database_name") or "")`. -/
def database (row : CatalogFile) : String := row.databaseName.getD ""

/-- `_at`: an empty end is no end. -/
def endedAt (row : CatalogFile) : String :=
  match row.backupEndedAt with
  | none => row.createdAt
  | some ended => if ended = "" then row.createdAt else ended

/-- `COALESCE(br.started_at, bf.backup_started_at, bf.backup_ended_at, bf.created_at)`. -/
def chainStart (row : CatalogFile) : String :=
  ((row.runStartedAt <|> row.backupStartedAt) <|> row.backupEndedAt).getD row.createdAt

def startOf (row : CatalogFile) : String :=
  if row.chainStart = "" then row.endedAt else row.chainStart

end CatalogFile

/-- `repository_copies`: an entry's verified copies, oldest first. -/
def repositoryCopies (backupId : String) (catalog : List CatalogFile) : List CatalogFile :=
  sortedBy (fun row => toLex (row.backupEndedAt.getD row.createdAt, row.fileId))
    (catalog.filter fun row => row.backupId = backupId ∧ row.verified = true)

structure Plan where
  expire : List CatalogFile
  kept : List String
  deriving DecidableEq

def Plan.expiring (plan : Plan) (rows : List CatalogFile) : Plan := { plan with expire := plan.expire ++ rows }

def Plan.keeping (plan : Plan) (reason : String) : Plan := { plan with kept := plan.kept ++ [reason] }

/-- Past its retention; nothing where `strptime` refuses the text of the row's end. -/
def old (strptime : String → Option Instant) (offload : BackupOffload) (now : Instant) (row : CatalogFile) :
    Option Bool :=
  let keepFor := offload.retentionOf row.fileType
  if keepFor ≤ 0 ∨ row.endedAt = "" then some false
  else (strptime (Text.take 19 row.endedAt)).map fun ended => keepFor * microsecondsPerSecond < now - ended

/-- `max((s for s in starts if s <= _at(row)), default=None)`. -/
def ownerOf (starts : List String) (row : CatalogFile) : Option String :=
  (starts.filter fun start => start ≤ row.endedAt).max?

/-- What the pass over a database's copies has put where. -/
structure Placed where
  groups : List (String × List CatalogFile)
  dependents : List (String × List CatalogFile)
  plan : Plan

def place (old : CatalogFile → Option Bool) (starts : List String) (placed : Placed) (row : CatalogFile) :
    Option Placed :=
  match row.level with
  | none =>
      if row.fileType = .cert then
        some { placed with
          plan := placed.plan.keeping (row.fileName ++ ": a certificate - never expired on the repository") }
      else if row.startOf ∈ placed.groups.map Prod.fst then
        some { placed with groups := addTo placed.groups row.startOf row }
      else
        some { placed with
          plan := placed.plan.keeping (row.fileName ++ ": belongs to no full on the repository - kept") }
  | some .full => some placed
  | some .diff | some .log =>
      match ownerOf starts row with
      | none => (old row).map fun gone => if gone then { placed with plan := placed.plan.expiring [row] } else placed
      | some owner => some { placed with dependents := addTo placed.dependents owner row }

/-- One start of `for start in starts`. -/
def expireRun (old : CatalogFile → Option Bool) (newest : String) (placed : Placed) (plan : Plan) (start : String) :
    Option Plan :=
  if newest ≤ start then some plan
  else do
    let dependents := groupOf placed.dependents start
    let gone ← dependents.filterM old
    let members := groupOf placed.groups start
    let allOld ← members.allM old
    if allOld = false then some (plan.expiring gone)
    else if gone.length < dependents.length then
      some ((plan.expiring gone).keeping (String.intercalate ", " (members.map CatalogFile.fileName) ++
        ": past its retention, kept - a copy that depends on it is not"))
    else some ((plan.expiring gone).expiring members)

def planDatabase (old : CatalogFile → Option Bool) (plan : Plan) (byDb : String × List CatalogFile) : Option Plan :=
  let copies := sortedBy (fun row => toLex (row.endedAt, row.fileId)) byDb.2
  let groups := groupsBy CatalogFile.startOf (copies.filter fun row => row.level = some .full)
  let starts := sortedBy id (groups.map Prod.fst)
  match starts.getLast? with
  | none =>
      if copies = [] then some plan
      else
        some (plan.keeping ((if byDb.1 = "" then "its database" else byDb.1) ++
          ": no full on the repository - nothing of it expires"))
  | some newest => do
      let placed ← copies.foldlM (place old starts) ⟨groups, [], plan⟩
      starts.foldlM (expireRun old newest placed) placed.plan

def expiryPlan (strptime : String → Option Instant) (rows : List CatalogFile) (offload : BackupOffload)
    (now : Instant) : Option Plan :=
  (groupsBy CatalogFile.database rows).foldlM (planDatabase (old strptime offload now)) ⟨[], []⟩

/-! ## What a plan expires -/

/-- A DIFF or a LOG: it is restored on top of a full. -/
def CatalogFile.Dependent (row : CatalogFile) : Prop := row.level = some .diff ∨ row.level = some .log

/-- A file of the full that started at `start`: its own pieces, and what travels with them. -/
def CatalogFile.Member (row : CatalogFile) (start : String) : Prop :=
  row.startOf = start ∧ (row.level = some .full ∨ row.level = none ∧ row.fileType ≠ .cert)

/-- The copies have a full whose run started at `start`. -/
def FullRun (copies : List CatalogFile) (start : String) : Prop :=
  ∃ row ∈ copies, row.level = some .full ∧ row.startOf = start

structure Owner (copies : List CatalogFile) (row : CatalogFile) (start : String) : Prop where
  fullRun : FullRun copies start
  started : start ≤ row.endedAt
  last : ∀ other, FullRun copies other → other ≤ row.endedAt → other ≤ start

/-- The copies of one database that a plan expires. -/
inductive Expires (isOld : CatalogFile → Prop) (copies : List CatalogFile) (row : CatalogFile) : Prop
  | beforeFulls (dependent : row.Dependent) (aged : isOld row) (fulls : ∃ start, FullRun copies start)
      (before : ∀ start, FullRun copies start → row.endedAt < start)
  | dependent (start later : String) (dependent : row.Dependent) (aged : isOld row)
      (owner : Owner copies row start) (fullRun : FullRun copies later) (older : start < later)
  | member (start later : String) (member : row.Member start) (fullRun : FullRun copies start)
      (laterRun : FullRun copies later) (older : start < later)
      (aged : ∀ other ∈ copies, other.Member start → isOld other)
      (alone : ∀ other ∈ copies, other.Dependent → Owner copies other start → isOld other)

instance (row : CatalogFile) : Decidable row.Dependent :=
  inferInstanceAs (Decidable (row.level = some .diff ∨ row.level = some .log))

variable {row : CatalogFile}

theorem CatalogFile.not_dependent_of_member {start : String} (member : row.Member start) : ¬row.Dependent := by
  rintro (diff | log)
  · rcases member.2 with full | ⟨none, _⟩
    · cases diff.symm.trans full
    · cases diff.symm.trans none
  · rcases member.2 with full | ⟨none, _⟩
    · cases log.symm.trans full
    · cases log.symm.trans none

variable {starts : List String}

theorem ownerOf_eq_none_iff : ownerOf starts row = none ↔ ∀ start ∈ starts, row.endedAt < start := by
  simp [ownerOf, List.filter_eq_nil_iff]

theorem ownerOf_eq_some_iff {owner : String} :
    ownerOf starts row = some owner ↔
      owner ∈ starts ∧ owner ≤ row.endedAt ∧ ∀ other ∈ starts, other ≤ row.endedAt → other ≤ owner := by
  rw [ownerOf, List.max?_eq_some_iff]
  simp [and_assoc]

section Database

variable {old : CatalogFile → Option Bool} {starts : List String} {newest : String}

/-! ### The pass over the copies -/

/-- What placing `rows` changes. -/
structure PlacedFrom (old : CatalogFile → Option Bool) (starts : List String) (rows : List CatalogFile)
    (before after : Placed) : Prop where
  keys : ∀ start, start ∈ after.groups.map Prod.fst ↔ start ∈ before.groups.map Prod.fst
  groups : ∀ start ∈ before.groups.map Prod.fst, ∀ row, row ∈ groupOf after.groups start ↔
    row ∈ groupOf before.groups start ∨
      row ∈ rows ∧ row.level = none ∧ row.fileType ≠ .cert ∧ row.startOf = start
  dependents : ∀ start row, row ∈ groupOf after.dependents start ↔
    row ∈ groupOf before.dependents start ∨
      row ∈ rows ∧ row.Dependent ∧ ownerOf starts row = some start
  expire : ∀ row, row ∈ after.plan.expire ↔
    row ∈ before.plan.expire ∨ row ∈ rows ∧ row.Dependent ∧ ownerOf starts row = none ∧ old row = some true

theorem PlacedFrom.nothing (placed : Placed) : PlacedFrom old starts [] placed placed where
  keys _ := Iff.rfl
  groups _ _ _ := by simp
  dependents _ _ := by simp
  expire _ := by simp

theorem PlacedFrom.trans {first second : List CatalogFile} {before between after : Placed}
    (earlier : PlacedFrom old starts first before between) (later : PlacedFrom old starts second between after) :
    PlacedFrom old starts (first ++ second) before after where
  keys start := (later.keys start).trans (earlier.keys start)
  groups start known row := by
    rw [later.groups start ((earlier.keys start).mpr known), earlier.groups start known, List.mem_append,
      or_and_right, or_assoc]
  dependents start row := by
    rw [later.dependents, earlier.dependents, List.mem_append, or_and_right, or_assoc]
  expire row := by
    rw [later.expire, earlier.expire, List.mem_append, or_and_right, or_assoc]

variable {placed : Placed} {row : CatalogFile} {plan next : Plan}

/-- A copy that is put nowhere. -/
theorem PlacedFrom.aside {next : Placed} (groups : next.groups = placed.groups)
    (dependents : next.dependents = placed.dependents) (expire : next.plan.expire = placed.plan.expire)
    (stays : row.level = none → row.fileType ≠ .cert → row.startOf ∉ placed.groups.map Prod.fst)
    (apart : ¬row.Dependent) : PlacedFrom old starts [row] placed next where
  keys _ := by rw [groups]
  groups start known other := by
    rw [groups, List.mem_singleton]
    refine ⟨Or.inl, ?_⟩
    rintro (inside | ⟨rfl, level, fileType, rfl⟩)
    · exact inside
    · exact absurd known (stays level fileType)
  dependents start other := by
    rw [dependents, List.mem_singleton]
    refine ⟨Or.inl, ?_⟩
    rintro (inside | ⟨rfl, dependent, _⟩)
    · exact inside
    · exact absurd dependent apart
  expire other := by
    rw [expire, List.mem_singleton]
    refine ⟨Or.inl, ?_⟩
    rintro (inside | ⟨rfl, dependent, _⟩)
    · exact inside
    · exact absurd dependent apart

theorem PlacedFrom.travels (level : row.level = none) (fileType : row.fileType ≠ .cert)
    (known : row.startOf ∈ placed.groups.map Prod.fst) :
    PlacedFrom old starts [row] placed { placed with groups := addTo placed.groups row.startOf row } where
  keys start := by
    rw [mem_keys_addTo]
    refine ⟨?_, Or.inr⟩
    rintro (rfl | inside)
    · exact known
    · exact inside
  groups start _ other := by
    rw [groupOf_addTo, List.mem_append, List.mem_singleton]
    apply or_congr_right
    constructor
    · intro inside
      split at inside
      · rename_i same
        rw [List.mem_singleton] at inside
        subst inside
        exact ⟨rfl, level, fileType, same⟩
      · cases inside
    · rintro ⟨rfl, _, _, same⟩
      rw [if_pos same]
      exact List.mem_singleton_self _
  dependents start other := by
    refine ⟨Or.inl, ?_⟩
    rintro (inside | ⟨single, dependent, _⟩)
    · exact inside
    · rw [List.mem_singleton] at single
      subst single
      exact absurd dependent (CatalogFile.not_dependent_of_member ⟨rfl, Or.inr ⟨level, fileType⟩⟩)
  expire other := by
    refine ⟨Or.inl, ?_⟩
    rintro (inside | ⟨single, dependent, _⟩)
    · exact inside
    · rw [List.mem_singleton] at single
      subst single
      exact absurd dependent (CatalogFile.not_dependent_of_member ⟨rfl, Or.inr ⟨level, fileType⟩⟩)

theorem PlacedFrom.depends {next : Placed} (dependent : row.Dependent) (ran : (match ownerOf starts row with
      | none => (old row).map fun gone => if gone then { placed with plan := placed.plan.expiring [row] } else placed
      | some owner => some { placed with dependents := addTo placed.dependents owner row }) = some next) :
    PlacedFrom old starts [row] placed next := by
  have leveled : row.level ≠ none := by
    rcases dependent with level | level <;> rw [level] <;> exact Option.some_ne_none _
  cases owned : ownerOf starts row with
  | none =>
    rw [owned] at ran
    dsimp only at ran
    rw [Option.map_eq_some_iff] at ran
    obtain ⟨gone, aged, rfl⟩ := ran
    refine ⟨fun _ => by split <;> rfl, ?_, ?_, ?_⟩
    · intro start _ other
      rw [List.mem_singleton]
      refine ⟨fun inside => Or.inl (by split at inside <;> exact inside), ?_⟩
      rintro (inside | ⟨rfl, level, _⟩)
      · split <;> exact inside
      · exact absurd level leveled
    · intro start other
      rw [List.mem_singleton]
      refine ⟨fun inside => Or.inl (by split at inside <;> exact inside), ?_⟩
      rintro (inside | ⟨rfl, _, owner⟩)
      · split <;> exact inside
      · cases owned.symm.trans owner
    · intro other
      rw [List.mem_singleton]
      cases gone with
      | true =>
        simp only [if_true, Plan.expiring, List.mem_append, List.mem_singleton]
        apply or_congr_right
        refine ⟨?_, And.left⟩
        rintro rfl
        exact ⟨rfl, dependent, owned, aged⟩
      | false =>
        simp only [Bool.false_eq_true, if_false]
        refine ⟨Or.inl, ?_⟩
        rintro (inside | ⟨rfl, _, _, gone⟩)
        · exact inside
        · cases aged.symm.trans gone
  | some owner =>
    rw [owned] at ran
    cases ran
    refine ⟨fun _ => Iff.rfl, ?_, ?_, ?_⟩
    · intro start _ other
      rw [List.mem_singleton]
      refine ⟨Or.inl, ?_⟩
      rintro (inside | ⟨rfl, level, _⟩)
      · exact inside
      · exact absurd level leveled
    · intro start other
      rw [groupOf_addTo, List.mem_append, List.mem_singleton]
      apply or_congr_right
      constructor
      · intro inside
        split at inside
        · rename_i same
          rw [List.mem_singleton] at inside
          subst inside
          exact ⟨rfl, dependent, owned.trans (congrArg some same)⟩
        · cases inside
      · rintro ⟨rfl, _, same⟩
        rw [if_pos (Option.some.inj (owned.symm.trans same))]
        exact List.mem_singleton_self _
    · intro other
      rw [List.mem_singleton]
      refine ⟨Or.inl, ?_⟩
      rintro (inside | ⟨rfl, _, none, _⟩)
      · exact inside
      · cases owned.symm.trans none

theorem place_placedFrom {next : Placed} (ran : place old starts placed row = some next) :
    PlacedFrom old starts [row] placed next := by
  cases level : row.level with
  | none =>
    have apart : ¬row.Dependent := by
      rintro (diff | log)
      · cases level.symm.trans diff
      · cases level.symm.trans log
    rw [place, level] at ran
    dsimp only at ran
    split at ran
    · rename_i certificate
      cases ran
      exact .aside rfl rfl rfl (fun _ other => absurd certificate other) apart
    · rename_i fileType
      split at ran
      · rename_i known
        cases ran
        exact .travels level fileType known
      · rename_i unknown
        cases ran
        exact .aside rfl rfl rfl (fun _ _ => unknown) apart
  | some kind =>
    rw [place, level] at ran
    cases kind with
    | full =>
      have apart : ¬row.Dependent := by
        rintro (diff | log)
        · cases level.symm.trans diff
        · cases level.symm.trans log
      cases ran
      exact .aside rfl rfl rfl (fun none => by cases level.symm.trans none) apart
    | diff => exact .depends (Or.inl level) ran
    | log => exact .depends (Or.inr level) ran

theorem foldlM_place {rows : List CatalogFile} {last : Placed} (ran : rows.foldlM (place old starts) placed = some last) :
    PlacedFrom old starts rows placed last := by
  induction rows generalizing placed with
  | nil =>
    cases ran
    exact .nothing _
  | cons row rest ih =>
    rw [List.foldlM_cons, Option.bind_eq_bind, Option.bind_eq_some_iff] at ran
    obtain ⟨next, stepped, onward⟩ := ran
    exact (place_placedFrom stepped).trans (ih onward)

/-! ### The pass over the starts -/

theorem expireRun_adds {start : String} (row : CatalogFile) (ran : expireRun old newest placed plan start = some next) :
    row ∈ next.expire ↔ row ∈ plan.expire ∨ start < newest ∧
      ((row ∈ groupOf placed.dependents start ∧ old row = some true) ∨
        row ∈ groupOf placed.groups start ∧ (∀ other ∈ groupOf placed.groups start, old other = some true) ∧
          ∀ other ∈ groupOf placed.dependents start, old other = some true) := by
  rw [expireRun] at ran
  split at ran
  · rename_i inNewest
    cases ran
    simp [not_lt.mpr inNewest]
  · rename_i before
    rw [not_le] at before
    simp only [Option.bind_eq_bind, Option.bind_eq_some_iff] at ran
    obtain ⟨gone, filtered, allOld, tested, ran⟩ := ran
    have goneEq := eq_filter_of_filterM filtered
    have every := allM_eq_true_iff tested
    have inGone (other : CatalogFile) :
        other ∈ gone ↔ other ∈ groupOf placed.dependents start ∧ old other = some true := by
      rw [goneEq, List.mem_filter, decide_eq_true_eq]
    simp only [before, true_and, ← every, ← inGone]
    split at ran
    · rename_i young
      cases ran
      simp [Plan.expiring, young]
    · rename_i aged
      rw [Bool.not_eq_false] at aged
      split at ran
      · rename_i fewer
        cases ran
        rw [goneEq, List.length_filter_lt_length_iff_exists] at fewer
        obtain ⟨other, member, young⟩ := fewer
        rw [decide_eq_true_eq] at young
        have notAll : ¬∀ other ∈ groupOf placed.dependents start, old other = some true :=
          fun all => young (all other member)
        simp [Plan.expiring, Plan.keeping, notAll]
      · rename_i whole
        cases ran
        rw [goneEq, List.length_filter_lt_length_iff_exists] at whole
        have all : ∀ other ∈ groupOf placed.dependents start, old other = some true := by
          intro other member
          by_contra young
          exact whole ⟨other, member, by simpa using young⟩
        simp only [Plan.expiring, List.mem_append, aged, and_iff_left all, and_true, or_assoc]

/-! ### One database -/

section Runs

variable {copies : List CatalogFile} (known : ∀ start, start ∈ starts ↔ FullRun copies start)

include known
variable {start : String}

theorem owner_iff : ownerOf starts row = some start ↔ Owner copies row start := by
  rw [ownerOf_eq_some_iff]
  constructor
  · rintro ⟨member, started, last⟩
    exact ⟨(known start).mp member, started, fun other full => last other ((known other).mpr full)⟩
  · rintro ⟨full, started, last⟩
    exact ⟨(known start).mpr full, started, fun other member => last other ((known other).mp member)⟩

theorem ownerless_iff : ownerOf starts row = none ↔ ∀ start, FullRun copies start → row.endedAt < start := by
  rw [ownerOf_eq_none_iff]
  exact forall_congr' fun start => by rw [known]

theorem lt_newest_iff (newestMember : newest ∈ starts) (newestLast : ∀ start ∈ starts, start ≤ newest) :
    start < newest ↔ ∃ later, FullRun copies later ∧ start < later := by
  constructor
  · intro before
    exact ⟨newest, (known newest).mp newestMember, before⟩
  · rintro ⟨later, full, before⟩
    exact before.trans_le (newestLast later ((known later).mpr full))

end Runs

variable {copies : List CatalogFile}

/-- What the passes over one database's copies and starts expire. -/
theorem placed_adds {groups : List (String × List CatalogFile)} (known : ∀ start, start ∈ starts ↔ FullRun copies start)
    (keys : ∀ start, start ∈ groups.map Prod.fst ↔ start ∈ starts)
    (fulls : ∀ start row, row ∈ groupOf groups start ↔ row ∈ copies ∧ row.level = some .full ∧ row.startOf = start)
    (newestMember : newest ∈ starts) (newestLast : ∀ start ∈ starts, start ≤ newest)
    (placing : PlacedFrom old starts copies ⟨groups, [], plan⟩ placed)
    (ran : starts.foldlM (expireRun old newest placed) placed.plan = some next) (row : CatalogFile) :
    row ∈ next.expire ↔ row ∈ plan.expire ∨
      row ∈ copies ∧ Expires (fun other => old other = some true) copies row := by
  have dependents (start : String) (other : CatalogFile) : other ∈ groupOf placed.dependents start ↔
      other ∈ copies ∧ other.Dependent ∧ Owner copies other start := by
    rw [placing.dependents, owner_iff known]
    exact or_iff_right List.not_mem_nil
  have members {start : String} (full : FullRun copies start) (other : CatalogFile) :
      other ∈ groupOf placed.groups start ↔ other ∈ copies ∧ other.Member start := by
    rw [placing.groups start ((keys start).mpr ((known start).mpr full)), fulls, CatalogFile.Member]
    tauto
  rw [foldlM_adds (fun plan : Plan => row ∈ plan.expire) (fun _ start _ _ stepped => expireRun_adds row stepped) ran,
    placing.expire, or_assoc]
  apply or_congr_right
  constructor
  · rintro (⟨member, dependent, unowned, aged⟩ | ⟨start, inStarts, before, expired⟩)
    · exact ⟨member, .beforeFulls dependent aged ⟨newest, (known newest).mp newestMember⟩
        ((ownerless_iff known).mp unowned)⟩
    · have full := (known start).mp inStarts
      obtain ⟨later, laterRun, older⟩ := (lt_newest_iff known newestMember newestLast).mp before
      rcases expired with ⟨inside, aged⟩ | ⟨inside, allOld, alone⟩
      · obtain ⟨member, dependent, owner⟩ := (dependents start row).mp inside
        exact ⟨member, .dependent start later dependent aged owner laterRun older⟩
      · obtain ⟨member, belongs⟩ := (members full row).mp inside
        refine ⟨member, .member start later belongs full laterRun older ?_ ?_⟩
        · intro other present other'
          exact allOld other ((members full other).mpr ⟨present, other'⟩)
        · intro other present dependent owner
          exact alone other ((dependents start other).mpr ⟨present, dependent, owner⟩)
  · rintro ⟨member, expires⟩
    cases expires with
    | beforeFulls dependent aged _ before =>
      exact Or.inl ⟨member, dependent, (ownerless_iff known).mpr before, aged⟩
    | dependent start later dependent aged owner laterRun older =>
      exact Or.inr ⟨start, (known start).mpr owner.fullRun,
        (lt_newest_iff known newestMember newestLast).mpr ⟨later, laterRun, older⟩,
        Or.inl ⟨(dependents start row).mpr ⟨member, dependent, owner⟩, aged⟩⟩
    | member start later belongs full laterRun older aged alone =>
      refine Or.inr ⟨start, (known start).mpr full,
        (lt_newest_iff known newestMember newestLast).mpr ⟨later, laterRun, older⟩,
        Or.inr ⟨(members full row).mpr ⟨member, belongs⟩, ?_, ?_⟩⟩
      · intro other inside
        obtain ⟨present, other'⟩ := (members full other).mp inside
        exact aged other present other'
      · intro other inside
        obtain ⟨present, dependent, owner⟩ := (dependents start other).mp inside
        exact alone other present dependent owner

theorem Expires.congr {isOld : CatalogFile → Prop} {others : List CatalogFile}
    (same : ∀ row, row ∈ copies ↔ row ∈ others) (expires : Expires isOld copies row) : Expires isOld others row := by
  have runs (start : String) : FullRun copies start ↔ FullRun others start := by simp only [FullRun, same]
  have owners (other : CatalogFile) (start : String) (owner : Owner copies other start) : Owner others other start :=
    ⟨(runs start).mp owner.fullRun, owner.started, fun later full => owner.last later ((runs later).mpr full)⟩
  have owners' (other : CatalogFile) (start : String) (owner : Owner others other start) : Owner copies other start :=
    ⟨(runs start).mpr owner.fullRun, owner.started, fun later full => owner.last later ((runs later).mp full)⟩
  cases expires with
  | beforeFulls dependent aged fulls before =>
    obtain ⟨start, full⟩ := fulls
    exact .beforeFulls dependent aged ⟨start, (runs start).mp full⟩ fun start full => before start ((runs start).mpr full)
  | dependent start later dependent aged owner laterRun older =>
    exact .dependent start later dependent aged (owners row start owner) ((runs later).mp laterRun) older
  | member start later belongs full laterRun older aged alone =>
    refine .member start later belongs ((runs start).mp full) ((runs later).mp laterRun) older ?_ ?_
    · intro other present
      exact aged other ((same other).mpr present)
    · intro other present dependent owner
      exact alone other ((same other).mpr present) dependent (owners' other start owner)

theorem planDatabase_adds {byDb : String × List CatalogFile} (row : CatalogFile)
    (ran : planDatabase old plan byDb = some next) :
    row ∈ next.expire ↔ row ∈ plan.expire ∨
      row ∈ byDb.2 ∧ Expires (fun other => old other = some true) byDb.2 row := by
  rw [planDatabase] at ran
  generalize copiesEq : sortedBy (fun row : CatalogFile => toLex (row.endedAt, row.fileId)) byDb.2 = copies at ran
  have same (other : CatalogFile) : other ∈ copies ↔ other ∈ byDb.2 := by rw [← copiesEq, mem_sortedBy]
  generalize groupsEq : groupsBy CatalogFile.startOf (copies.filter fun row => row.level = some .full) = groups at ran
  have fulls (start : String) (other : CatalogFile) :
      other ∈ groupOf groups start ↔ other ∈ copies ∧ other.level = some .full ∧ other.startOf = start := by
    rw [← groupsEq, groupOf_groupsBy]
    simp only [List.mem_filter, decide_eq_true_eq, and_assoc]
  have keys (start : String) : start ∈ groups.map Prod.fst ↔ FullRun copies start := by
    rw [← groupsEq, mem_keys_groupsBy]
    simp [FullRun, and_assoc]
  have sorted := sortedBy_pairwise (id : String → String) (groups.map Prod.fst)
  have inStarts (start : String) : start ∈ sortedBy id (groups.map Prod.fst) ↔ FullRun copies start := by
    rw [mem_sortedBy, keys]
  generalize sortedBy id (groups.map Prod.fst) = starts at ran sorted inStarts
  have back : row ∈ copies ∧ Expires (fun other => old other = some true) copies row ↔
      row ∈ byDb.2 ∧ Expires (fun other => old other = some true) byDb.2 row :=
    and_congr (same row) ⟨Expires.congr same, Expires.congr fun other => (same other).symm⟩
  rw [← back]
  cases last : starts.getLast? with
  | none =>
    have noFull (start : String) : ¬FullRun copies start := by
      rw [← inStarts, List.getLast?_eq_none_iff.mp last]
      exact List.not_mem_nil
    have unchanged : next.expire = plan.expire := by
      rw [last] at ran
      dsimp only at ran
      split at ran <;> cases ran <;> rfl
    rw [unchanged]
    refine ⟨Or.inl, ?_⟩
    rintro (inside | ⟨_, expires⟩)
    · exact inside
    · cases expires with
      | beforeFulls _ _ fulls _ => exact absurd fulls.choose_spec (noFull _)
      | dependent _ later _ _ _ laterRun _ => exact absurd laterRun (noFull later)
      | member _ later _ _ laterRun _ _ _ => exact absurd laterRun (noFull later)
  | some newest =>
    rw [last] at ran
    simp only [Option.bind_eq_bind, Option.bind_eq_some_iff] at ran
    obtain ⟨placed, placing, ran⟩ := ran
    have newestLast : ∀ start ∈ starts, start ≤ newest := by
      obtain ⟨front, rfl⟩ := List.getLast?_eq_some_iff.mp last
      rw [List.pairwise_append] at sorted
      intro start member
      rcases List.mem_append.mp member with earlier | single
      · exact sorted.2.2 start earlier newest (List.mem_singleton_self _)
      · exact le_of_eq (List.mem_singleton.mp single)
    exact placed_adds inStarts (fun start => (keys start).trans (inStarts start).symm) fulls
      (List.mem_of_getLast? last) newestLast (foldlM_place placing) ran row

end Database

theorem mem_expire_iff {strptime : String → Option Instant} {rows : List CatalogFile} {offload : BackupOffload}
    {now : Instant} {plan : Plan} (planned : expiryPlan strptime rows offload now = some plan) (row : CatalogFile) :
    row ∈ plan.expire ↔ row ∈ rows ∧ Expires (fun other => old strptime offload now other = some true)
      (rows.filter fun other => other.database = row.database) row := by
  rw [expiryPlan] at planned
  rw [foldlM_adds (fun plan : Plan => row ∈ plan.expire) (fun _ _ _ _ stepped => planDatabase_adds row stepped) planned,
    groupsBy_eq]
  constructor
  · rintro (nothing | ⟨_, member, inside, expires⟩)
    · cases nothing
    · obtain ⟨name, _, rfl⟩ := List.mem_map.mp member
      rw [List.mem_filter, decide_eq_true_eq] at inside
      obtain ⟨present, rfl⟩ := inside
      exact ⟨present, expires⟩
  · rintro ⟨present, expires⟩
    refine Or.inr ⟨_, List.mem_map.mpr ⟨row.database, ?_, rfl⟩, ?_, expires⟩
    · rw [mem_firstSeen]
      exact List.mem_map_of_mem present
    · simpa using present

end DbaBrain.BackupRestore.ExpiryPlan
