import DbaBrain.BackupRestore.ExpiryPlan

/-!
# Whether the repository keeps a restorable chain

A full is complete on the repository when every catalogued file of it is
verified there.  The plan sees the verified copies only, so a half-copied full
is a full to it: where the newest one is half copied, the newest complete one
goes by its age.
-/

namespace DbaBrain.BackupRestore.RestorableChain

open DbaBrain.Foundation.Selection ExpiryPlan
open Lib.Coerce (Instant)

/-- Every file of the run's full is verified: its pieces and what travels with them. -/
structure CompleteFull (catalog : List CatalogFile) (backupId database start : String) : Prop where
  full : ∃ row ∈ catalog, row.backupId = backupId ∧ row.database = database ∧ row.startOf = start ∧
    row.level = some .full
  verified : ∀ row ∈ catalog, row.backupId = backupId → row.database = database → row.startOf = start →
    ¬row.Dependent → row.verified = true

structure NewestComplete (catalog : List CatalogFile) (backupId database start : String) : Prop where
  complete : CompleteFull catalog backupId database start
  last : ∀ other, CompleteFull catalog backupId database other → other ≤ start

/-- A DIFF or LOG that ended at `start` or later, or a file of a run that started no earlier. -/
def FromOn (start : String) (row : CatalogFile) : Prop :=
  (row.Dependent → start ≤ row.endedAt) ∧ (¬row.Dependent → start ≤ row.startOf)

structure LastComplete (catalog : List CatalogFile) (backupId : String) (row : CatalogFile) (start : String) :
    Prop where
  complete : CompleteFull catalog backupId row.database start
  started : start ≤ row.endedAt
  last : ∀ other, CompleteFull catalog backupId row.database other → other ≤ row.endedAt → other ≤ start

def copiesOf (catalog : List CatalogFile) (backupId database : String) : List CatalogFile :=
  (repositoryCopies backupId catalog).filter fun row => row.database = database

/-- `prune_repository` marks the copies it deleted `expired`. -/
def pruned (expire catalog : List CatalogFile) : List CatalogFile :=
  catalog.map fun row => if row ∈ expire then { row with verified := false } else row

/-- What is left of a restorable chain once the copies of `expire` are deleted. -/
structure KeepsChain (catalog : List CatalogFile) (backupId : String) (expire : List CatalogFile) : Prop where
  complete : ∀ database, (∃ start, CompleteFull catalog backupId database start) →
    ∃ start, CompleteFull (pruned expire catalog) backupId database start
  newest : ∀ database start, NewestComplete catalog backupId database start →
    ∀ row ∈ expire, row.database = database → ¬FromOn start row
  owners : ∀ database, ∀ row ∈ copiesOf catalog backupId database, row.Dependent → row ∉ expire →
    ∀ start, Owner (copiesOf catalog backupId database) row start →
      ∀ other ∈ copiesOf catalog backupId database, ¬other.Dependent → other.startOf = start → other ∉ expire

/-- The same of the complete full a kept DIFF or LOG can be restored on. -/
def KeepsComplete (catalog : List CatalogFile) (backupId : String) (expire : List CatalogFile) : Prop :=
  ∀ database, ∀ row ∈ copiesOf catalog backupId database, row.Dependent → row ∉ expire →
    ∀ start, LastComplete catalog backupId row start →
      ∀ other ∈ copiesOf catalog backupId database, ¬other.Dependent → other.startOf = start → other ∉ expire

section Plans

variable {catalog : List CatalogFile} {backupId database : String} {isOld : CatalogFile → Prop}
variable {row : CatalogFile}

@[simp] theorem mem_copiesOf : row ∈ copiesOf catalog backupId database ↔
    row ∈ catalog ∧ row.backupId = backupId ∧ row.verified = true ∧ row.database = database := by
  simp [copiesOf, repositoryCopies, and_assoc]

variable {start : String}

theorem CompleteFull.fullRun (complete : CompleteFull catalog backupId database start) :
    FullRun (copiesOf catalog backupId database) start := by
  obtain ⟨row, member, entry, name, sameStart, level⟩ := complete.full
  have belongs : row.Member start := ⟨sameStart, Or.inl level⟩
  have apart := CatalogFile.not_dependent_of_member belongs
  exact ⟨row, mem_copiesOf.mpr ⟨member, entry, complete.verified row member entry name sameStart apart, name⟩,
    level, sameStart⟩

theorem exists_newestComplete (complete : CompleteFull catalog backupId database start) :
    ∃ newest, NewestComplete catalog backupId database newest := by
  have finite : {other | CompleteFull catalog backupId database other}.Finite := by
    refine (List.finite_toSet (catalog.map CatalogFile.startOf)).subset ?_
    rintro other ⟨⟨row, member, _, _, rfl, _⟩, _⟩
    exact List.mem_map_of_mem member
  obtain ⟨newest, complete, last⟩ := Set.exists_max_image _ id finite ⟨start, complete⟩
  exact ⟨newest, complete, last⟩

theorem exists_owner {copies : List CatalogFile} (full : FullRun copies start) (started : start ≤ row.endedAt) :
    ∃ run, Owner copies row run := by
  let starts := (copies.filter fun other => other.level = some .full).map CatalogFile.startOf
  have known (other : String) : other ∈ starts ↔ FullRun copies other := by
    simp [starts, FullRun, and_assoc]
  cases owned : ownerOf starts row with
  | none =>
    rw [ownerless_iff known] at owned
    exact absurd started (not_le_of_gt (owned start full))
  | some run => exact ⟨run, (owner_iff known).mp owned⟩

/-- None of the run's DIFFs and LOGs is past its retention, and the run is not past it whole. -/
structure Spared (isOld : CatalogFile → Prop) (copies : List CatalogFile) (run : String) : Prop where
  dependents : ∀ row ∈ copies, row.Dependent → Owner copies row run → ¬isOld row
  young : ∃ row ∈ copies, (row.Member run ∨ row.Dependent ∧ Owner copies row run) ∧ ¬isOld row

def NewestSpared (isOld : CatalogFile → Prop) (catalog : List CatalogFile) (backupId : String) : Prop :=
  ∀ database start, NewestComplete catalog backupId database start →
    ∀ run later, start ≤ run → FullRun (copiesOf catalog backupId database) run →
      FullRun (copiesOf catalog backupId database) later → run < later →
        Spared isOld (copiesOf catalog backupId database) run

/-- A complete run past its retention whole leaves no younger DIFF or LOG without a later complete run. -/
def OldRunsUnused (isOld : CatalogFile → Prop) (catalog : List CatalogFile) (backupId : String) : Prop :=
  ∀ database start later, CompleteFull catalog backupId database start →
    FullRun (copiesOf catalog backupId database) later → start < later →
    (∀ row ∈ copiesOf catalog backupId database, row.Member start → isOld row) →
    (∀ row ∈ copiesOf catalog backupId database, row.Dependent →
      Owner (copiesOf catalog backupId database) row start → isOld row) →
    ∀ row ∈ copiesOf catalog backupId database, row.Dependent → LastComplete catalog backupId row start → isOld row

def Names (isOld : CatalogFile → Prop) (catalog : List CatalogFile) (backupId : String)
    (expire : List CatalogFile) : Prop :=
  ∀ row, row ∈ expire ↔ row ∈ copiesOf catalog backupId row.database ∧
    Expires isOld (copiesOf catalog backupId row.database) row

/-- A complete full of which nothing is expired is complete after the deletion. -/
theorem CompleteFull.pruned {expire : List CatalogFile} (complete : CompleteFull catalog backupId database start)
    (kept : ∀ row ∈ catalog, row.backupId = backupId → row.database = database → row.startOf = start →
      ¬row.Dependent → row ∉ expire) : CompleteFull (pruned expire catalog) backupId database start where
  full := by
    obtain ⟨row, member, entry, name, sameStart, level⟩ := complete.full
    have belongs : row.Member start := ⟨sameStart, Or.inl level⟩
    have apart := CatalogFile.not_dependent_of_member belongs
    refine ⟨row, List.mem_map.mpr ⟨row, member, ?_⟩, entry, name, sameStart, level⟩
    exact if_neg (kept row member entry name sameStart apart)
  verified := by
    intro after inPruned entry name sameStart apart
    obtain ⟨row, member, rfl⟩ := List.mem_map.mp inPruned
    by_cases expired : row ∈ expire
    · rw [if_pos expired] at entry name sameStart apart
      exact absurd expired (kept row member entry name sameStart apart)
    · rw [if_neg expired] at entry name sameStart apart ⊢
      exact complete.verified row member entry name sameStart apart

section Named

variable {expire : List CatalogFile} (names : Names isOld catalog backupId expire)

include names
variable {row : CatalogFile}

theorem expired_of_expires (member : row ∈ copiesOf catalog backupId database)
    (expires : Expires isOld (copiesOf catalog backupId database) row) : row ∈ expire := by
  obtain ⟨_, _, _, rfl⟩ := mem_copiesOf.mp member
  exact (names row).mpr ⟨member, expires⟩

/-- A file of a full is expired with its run only, and the run is not the newest. -/
theorem member_of_expired (apart : ¬row.Dependent) (expired : row ∈ expire) :
    ∃ later, FullRun (copiesOf catalog backupId row.database) later ∧ row.startOf < later ∧
      row.Member row.startOf ∧ FullRun (copiesOf catalog backupId row.database) row.startOf ∧
      (∀ other ∈ copiesOf catalog backupId row.database, other.Member row.startOf → isOld other) ∧
      ∀ other ∈ copiesOf catalog backupId row.database, other.Dependent →
        Owner (copiesOf catalog backupId row.database) other row.startOf → isOld other := by
  obtain ⟨_, expires⟩ := (names row).mp expired
  cases expires with
  | beforeFulls dependent _ _ _ => exact absurd dependent apart
  | dependent _ _ dependent _ _ _ _ => exact absurd dependent apart
  | member start later belongs full laterRun older aged alone =>
    obtain rfl := belongs.1
    exact ⟨later, laterRun, older, belongs, full, aged, alone⟩

theorem owners_kept {other : CatalogFile} (member : row ∈ copiesOf catalog backupId database)
    (dependent : row.Dependent) (kept : row ∉ expire) (owner : Owner (copiesOf catalog backupId database) row start)
    (present : other ∈ copiesOf catalog backupId database) (apart : ¬other.Dependent)
    (sameStart : other.startOf = start) : other ∉ expire := by
  intro expired
  obtain ⟨_, _, _, rfl⟩ := mem_copiesOf.mp present
  obtain ⟨later, laterRun, older, _, _, _, alone⟩ := member_of_expired names apart expired
  rw [sameStart] at older alone
  exact kept (expired_of_expires names member
    (.dependent start later dependent (alone row member dependent owner) owner laterRun older))

theorem newest_iff_spared :
    (∀ database start, NewestComplete catalog backupId database start →
      ∀ row ∈ expire, row.database = database → ¬FromOn start row) ↔ NewestSpared isOld catalog backupId := by
  constructor
  · intro untouched database start newest run later after full laterRun older
    constructor
    · intro row member dependent owner aged
      have name := (mem_copiesOf.mp member).2.2.2
      refine untouched database start newest row ?_ name ⟨fun _ => after.trans owner.started, absurd dependent⟩
      exact expired_of_expires names member (.dependent run later dependent aged owner laterRun older)
    · by_contra allOld
      have aged : ∀ row ∈ copiesOf catalog backupId database,
          row.Member run ∨ row.Dependent ∧ Owner (copiesOf catalog backupId database) row run → isOld row := by
        intro row member belongs
        by_contra young
        exact allOld ⟨row, member, belongs, young⟩
      obtain ⟨row, member, level, sameStart⟩ := full
      have belongs : row.Member run := ⟨sameStart, Or.inl level⟩
      have apart := CatalogFile.not_dependent_of_member belongs
      refine untouched database start newest row ?_ (mem_copiesOf.mp member).2.2.2
        ⟨fun dependent => absurd dependent apart, fun _ => sameStart ▸ after⟩
      refine expired_of_expires names member (.member run later belongs ⟨row, member, level, sameStart⟩ laterRun older ?_ ?_)
      · intro other present memberOther
        exact aged other present (Or.inl memberOther)
      · intro other present dependent owner
        exact aged other present (Or.inr ⟨dependent, owner⟩)
  · intro spared database start newest row expired name fromOn
    subst name
    obtain ⟨member, expires⟩ := (names row).mp expired
    have startRun := newest.complete.fullRun
    cases expires with
    | beforeFulls dependent _ _ before =>
      exact absurd (fromOn.1 dependent) (not_le_of_gt (before start startRun))
    | dependent run later dependent aged owner laterRun older =>
      have after := owner.last start startRun (fromOn.1 dependent)
      exact (spared row.database start newest run later after owner.fullRun laterRun older).dependents
        row member dependent owner aged
    | member run later belongs full laterRun older aged alone =>
      have after : start ≤ run := belongs.1 ▸ fromOn.2 (CatalogFile.not_dependent_of_member belongs)
      obtain ⟨other, present, held, young⟩ :=
        (spared row.database start newest run later after full laterRun older).young
      rcases held with memberOther | ⟨dependent, owner⟩
      · exact young (aged other present memberOther)
      · exact young (alone other present dependent owner)

theorem keepsChain_iff : KeepsChain catalog backupId expire ↔ NewestSpared isOld catalog backupId := by
  constructor
  · intro keeps
    exact (newest_iff_spared names).mp keeps.newest
  · intro spared
    have untouched := (newest_iff_spared names).mpr spared
    refine ⟨?_, untouched, ?_⟩
    · rintro database ⟨start, complete⟩
      obtain ⟨newest, newestComplete⟩ := exists_newestComplete complete
      refine ⟨newest, newestComplete.complete.pruned ?_⟩
      intro row _ _ name sameStart apart expired
      exact untouched database newest newestComplete row expired name
        ⟨fun dependent => absurd dependent apart, fun _ => sameStart.ge⟩
    · intro database row member dependent kept start owner other present apart sameStart
      exact owners_kept names member dependent kept owner present apart sameStart

theorem keepsComplete_iff (spared : NewestSpared isOld catalog backupId) :
    KeepsComplete catalog backupId expire ↔ OldRunsUnused isOld catalog backupId := by
  constructor
  · intro keeps database start later complete laterRun older aged alone row member dependent last
    by_contra young
    have kept : row ∉ expire := by
      intro expired
      obtain ⟨_, expires⟩ := (names row).mp expired
      cases expires with
      | beforeFulls _ aged _ _ => exact young aged
      | dependent _ _ _ aged _ _ _ => exact young aged
      | member _ _ belongs _ _ _ _ _ => exact CatalogFile.not_dependent_of_member belongs dependent
    have full := complete.fullRun
    obtain ⟨piece, present, level, sameStart⟩ := complete.fullRun
    have belongs : piece.Member start := ⟨sameStart, Or.inl level⟩
    refine keeps database row member dependent kept start last piece present
      (CatalogFile.not_dependent_of_member belongs) sameStart ?_
    exact expired_of_expires names present (.member start later belongs full laterRun older aged alone)
  · intro unused database row member dependent kept start last other present apart sameStart expired
    obtain ⟨_, _, _, name⟩ := mem_copiesOf.mp member
    obtain ⟨_, _, _, rfl⟩ := mem_copiesOf.mp present
    obtain ⟨later, laterRun, older, _, _, aged, alone⟩ := member_of_expired names apart expired
    rw [sameStart] at older aged alone
    have complete := last.complete
    rw [name] at complete
    have old := unused other.database start later complete laterRun older aged alone row member dependent last
    obtain ⟨run, owner⟩ := exists_owner complete.fullRun last.started
    by_cases newer : ∃ next, FullRun (copiesOf catalog backupId other.database) next ∧ run < next
    · obtain ⟨next, nextRun, runOlder⟩ := newer
      exact kept (expired_of_expires names member (.dependent run next dependent old owner nextRun runOlder))
    · -- the copy ended after the newest run started, so its last complete full is the newest one
      have newest : NewestComplete catalog backupId other.database start := by
        refine ⟨complete, ?_⟩
        intro rival rivalComplete
        have inTime : rival ≤ run := by
          by_contra after
          exact newer ⟨rival, rivalComplete.fullRun, not_le.mp after⟩
        exact last.last rival (name ▸ rivalComplete) (inTime.trans owner.started)
      obtain ⟨piece, inCopies, held, young⟩ :=
        (spared other.database start newest start later (le_refl _) complete.fullRun laterRun older).young
      rcases held with memberPiece | ⟨dependentPiece, ownerPiece⟩
      · exact young (aged piece inCopies memberPiece)
      · exact young (alone piece inCopies dependentPiece ownerPiece)

end Named

end Plans

theorem names_of_expiryPlan {strptime : String → Option Instant} {catalog : List CatalogFile} {backupId : String}
    {offload : BackupOffload} {now : Instant} {plan : Plan}
    (planned : expiryPlan strptime (repositoryCopies backupId catalog) offload now = some plan) :
    Names (fun row => old strptime offload now row = some true) catalog backupId plan.expire := by
  intro row
  rw [mem_expire_iff planned, copiesOf, List.mem_filter, decide_eq_true_eq]
  simp

/--
After the copies a plan names are deleted, every database that had a complete
full still has one, nothing from the newest complete full on is gone, and no
kept DIFF or LOG has lost the last full before it, exactly where the full runs
from the newest complete one up to the newest are spared.  A kept DIFF or LOG
has not lost the last complete full before it either, exactly where moreover no
complete run that is past its retention whole leaves younger ones on it.
-/
theorem expiryPlan_keeps_chain_iff (strptime : String → Option Instant) (catalog : List CatalogFile)
    (backupId : String) (offload : BackupOffload) (now : Instant) {plan : Plan}
    (planned : expiryPlan strptime (repositoryCopies backupId catalog) offload now = some plan) :
    (KeepsChain catalog backupId plan.expire ↔
      NewestSpared (fun row => old strptime offload now row = some true) catalog backupId) ∧
    (KeepsChain catalog backupId plan.expire ∧ KeepsComplete catalog backupId plan.expire ↔
      NewestSpared (fun row => old strptime offload now row = some true) catalog backupId ∧
        OldRunsUnused (fun row => old strptime offload now row = some true) catalog backupId) := by
  have names := names_of_expiryPlan planned
  refine ⟨keepsChain_iff names, ?_⟩
  rw [keepsChain_iff names]
  exact and_congr_right fun spared => keepsComplete_iff names spared

/-! ## A half-copied newest full -/

/-- `strptime` with `%Y-%m-%dT%H:%M:%S`, on the stamps the catalog writes. -/
def readUtc (text : String) : Option Instant :=
  (Lib.Coerce.readStamp (text ++ "+00:00")).map Lib.Coerce.IsoReading.wallClock

def copy (fileId : Int) (fileType : FileType) (fileName ended : String) (verified : Bool) : CatalogFile :=
  { fileId := fileId
    backupId := "app-full"
    databaseName := some "APPDB"
    fileType := fileType
    fileName := fileName
    backupStartedAt := some ended
    backupEndedAt := some ended
    createdAt := ended
    runStartedAt := some ended
    verified := verified }

def september : CatalogFile := copy 1 .full "APP_FULL.bak" "2026-09-01T00:00:00Z" true

/-- The second stripe of October's full failed to copy. -/
def october : List CatalogFile :=
  [copy 2 .full "APP_FULL_1_of_2.bak" "2026-10-30T00:00:00Z" true,
    copy 3 .full "APP_FULL_2_of_2.bak" "2026-10-30T00:00:00Z" false]

def halfCopied : List CatalogFile := september :: october

/-- Fulls are kept seven days, the rest for good. -/
def sevenDays : BackupOffload := ⟨7 * 86400, 0, 0⟩

def noon : Instant := 63929044800 * 1000000

theorem halfCopied_planned :
    expiryPlan readUtc (repositoryCopies "app-full" halfCopied) sevenDays noon = some ⟨[september], []⟩ := by
  decide +kernel

theorem expiryPlan_keeps_chain_halfCopied :
    (KeepsChain halfCopied "app-full" [september] ↔
      NewestSpared (fun row => old readUtc sevenDays noon row = some true) halfCopied "app-full") ∧
    (KeepsChain halfCopied "app-full" [september] ∧ KeepsComplete halfCopied "app-full" [september] ↔
      NewestSpared (fun row => old readUtc sevenDays noon row = some true) halfCopied "app-full" ∧
        OldRunsUnused (fun row => old readUtc sevenDays noon row = some true) halfCopied "app-full") :=
  expiryPlan_keeps_chain_iff readUtc halfCopied "app-full" sevenDays noon halfCopied_planned

theorem september_complete : CompleteFull halfCopied "app-full" "APPDB" "2026-09-01T00:00:00Z" := by
  refine ⟨⟨september, List.mem_cons_self, by decide⟩, ?_⟩
  decide

/-- The only complete full on the repository is expired. -/
theorem half_copied_full_expires_the_complete_one :
    ∃ plan, expiryPlan readUtc (repositoryCopies "app-full" halfCopied) sevenDays noon = some plan ∧
      ¬KeepsChain halfCopied "app-full" plan.expire := by
  refine ⟨_, halfCopied_planned, ?_⟩
  intro keeps
  obtain ⟨start, ⟨row, member, _, _, rfl, _⟩, verified⟩ := keeps.complete "APPDB" ⟨_, september_complete⟩
  revert row
  decide

end DbaBrain.BackupRestore.RestorableChain
