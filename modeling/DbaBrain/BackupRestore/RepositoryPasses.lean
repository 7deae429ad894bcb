import DbaBrain.BackupRestore.RestorableChain

/-!
# One expiry pass after another

A pass plans over the copies the passes before it left.  A full expires whole and
with every copy that is restored on it, so a copy that stays has the full it had,
and passes one after another leave what the last of them alone would leave.
-/

namespace DbaBrain.BackupRestore.RepositoryPasses

open DbaBrain.Foundation.Selection ExpiryPlan RestorableChain
open Lib.Coerce (Instant)

/-- The copies that passes at these times leave, if every file they name is deleted and nothing is copied meanwhile. -/
def passes (strptime : String → Option Instant) (offload : BackupOffload) :
    List Instant → List CatalogFile → Option (List CatalogFile)
  | [], rows => some rows
  | now :: later, rows =>
      (expiryPlan strptime rows offload now).bind fun plan =>
        passes strptime offload later (rows.filter fun row => row ∉ plan.expire)

section Copies

variable {isOld isOlder : CatalogFile → Prop} {copies left : List CatalogFile} {row other : CatalogFile}
  {start : String}

theorem aged_of_expires (dependent : row.Dependent) (expires : Expires isOld copies row) : isOld row := by
  cases expires with
  | beforeFulls _ aged => exact aged
  | dependent _ _ _ aged => exact aged
  | member start _ member => exact absurd dependent (CatalogFile.not_dependent_of_member member)

/-- Where more copies are past their retention, no fewer expire. -/
theorem expires_of_older (grows : ∀ row, isOld row → isOlder row) (expires : Expires isOld copies row) :
    Expires isOlder copies row := by
  cases expires with
  | beforeFulls dependent aged fulls before => exact .beforeFulls dependent (grows row aged) fulls before
  | dependent own later dependent aged owner laterRun older =>
    exact .dependent own later dependent (grows row aged) owner laterRun older
  | member own later member full laterRun older aged alone =>
    refine .member own later member full laterRun older ?_ ?_
    · exact fun other there belongs => grows other (aged other there belongs)
    · exact fun other there dependent owner => grows other (alone other there dependent owner)

theorem whole_of_expires (member : row.Member start) (expires : Expires isOld copies row) :
    (∀ other, other.Member start → Expires isOld copies other) ∧
      ∀ other ∈ copies, other.Dependent → Owner copies other start → Expires isOld copies other := by
  cases expires with
  | beforeFulls dependent => exact absurd dependent (CatalogFile.not_dependent_of_member member)
  | dependent _ _ dependent => exact absurd dependent (CatalogFile.not_dependent_of_member member)
  | member own later named full laterRun older aged alone =>
    obtain rfl : own = start := named.1.symm.trans member.1
    refine ⟨fun other belongs => .member own later belongs full laterRun older aged alone, ?_⟩
    intro other present dependent owner
    exact .dependent own later dependent (alone other present dependent owner) owner laterRun older

/-- The newest full run expires neither itself nor what depends on it. -/
theorem newest_stays (newest : ∀ other, FullRun copies other → other ≤ start)
    (held : row.Member start ∨ row.Dependent ∧ Owner copies row start) : ¬Expires isOld copies row := by
  intro expires
  rcases held with member | ⟨dependent, owner⟩
  · cases expires with
    | beforeFulls dependent => exact CatalogFile.not_dependent_of_member member dependent
    | dependent _ _ dependent => exact CatalogFile.not_dependent_of_member member dependent
    | member own later named _ laterRun older =>
      obtain rfl : own = start := named.1.symm.trans member.1
      exact absurd older (newest later laterRun).not_gt
  · cases expires with
    | beforeFulls _ _ _ before => exact absurd owner.started (before start owner.fullRun).not_ge
    | dependent own later _ _ ownOwner laterRun older =>
      have same : own = start := le_antisymm (newest own ownOwner.fullRun)
        (ownOwner.last start owner.fullRun owner.started)
      exact absurd (same ▸ older) (newest later laterRun).not_gt
    | member _ _ member => exact CatalogFile.not_dependent_of_member member dependent

section Left

variable (remains : ∀ row, row ∈ left ↔ row ∈ copies ∧ ¬Expires isOld copies row)

include remains

theorem fullRun_of_left (full : FullRun left start) : FullRun copies start := by
  obtain ⟨row, present, level, started⟩ := full
  exact ⟨row, ((remains row).mp present).1, level, started⟩

/-- A full run stays where one of its files or a copy that depends on it stays. -/
theorem fullRun_left (full : FullRun copies start) (stays : other ∈ left)
    (held : other.Member start ∨ other.Dependent ∧ Owner copies other start) : FullRun left start := by
  obtain ⟨row, present, level, started⟩ := full
  refine ⟨row, (remains row).mpr ⟨present, fun expires => ?_⟩, level, started⟩
  obtain ⟨members, dependents⟩ := whole_of_expires ⟨started, Or.inl level⟩ expires
  obtain ⟨there, kept⟩ := (remains other).mp stays
  rcases held with member | ⟨dependent, owner⟩
  · exact kept (members other member)
  · exact kept (dependents other there dependent owner)

theorem exists_newest (full : FullRun copies start) :
    ∃ newest, FullRun left newest ∧ start ≤ newest := by
  obtain ⟨newest, ⟨row, present, level, started⟩, last⟩ : ∃ newest, FullRun copies newest ∧
      ∀ other, FullRun copies other → other ≤ newest := by
    obtain ⟨first, inside, level, _⟩ := full
    obtain ⟨row, member, greatest⟩ := (copies.filter fun row => row.level = some .full).toFinset.exists_max_image
      CatalogFile.startOf ⟨first, by simp [inside, level]⟩
    rw [List.mem_toFinset, List.mem_filter, decide_eq_true_eq] at member
    refine ⟨row.startOf, ⟨row, member.1, member.2, rfl⟩, ?_⟩
    rintro _ ⟨other, there, full, rfl⟩
    exact greatest other (by simp [there, full])
  refine ⟨newest, ⟨row, (remains row).mpr ⟨present, ?_⟩, level, started⟩, last start full⟩
  exact newest_stays last (Or.inl ⟨started, Or.inl level⟩)

theorem owner_left_iff (stays : row ∈ left) (dependent : row.Dependent) :
    Owner left row start ↔ Owner copies row start := by
  constructor
  · intro owner
    refine ⟨fullRun_of_left remains owner.fullRun, owner.started, fun other full before => ?_⟩
    by_contra above
    -- the last full before the copy among all copies
    obtain ⟨last, lastOwner⟩ := exists_owner full before
    have kept := fullRun_left remains lastOwner.fullRun stays (Or.inr ⟨dependent, lastOwner⟩)
    exact above ((lastOwner.last other full before).trans (owner.last last kept lastOwner.started))
  · intro owner
    have kept := fullRun_left remains owner.fullRun stays (Or.inr ⟨dependent, owner⟩)
    exact ⟨kept, owner.started, fun other full before => owner.last other (fullRun_of_left remains full) before⟩

/-- What a later pass expires of what an earlier one left is what it expires of all. -/
theorem expires_left_iff (grows : ∀ row, isOld row → isOlder row) (stays : row ∈ left) :
    Expires isOlder left row ↔ Expires isOlder copies row := by
  obtain ⟨present, kept⟩ := (remains row).mp stays
  constructor
  · intro expires
    cases expires with
    | beforeFulls dependent aged fulls before =>
      obtain ⟨full, run⟩ := fulls
      refine .beforeFulls dependent aged ⟨full, fullRun_of_left remains run⟩ fun other otherRun => ?_
      by_contra reached
      obtain ⟨last, owner⟩ := exists_owner otherRun (not_lt.mp reached)
      exact absurd owner.started
        (before last (fullRun_left remains owner.fullRun stays (Or.inr ⟨dependent, owner⟩))).not_ge
    | dependent own later dependent aged owner laterRun older =>
      exact .dependent own later dependent aged ((owner_left_iff remains stays dependent).mp owner)
        (fullRun_of_left remains laterRun) older
    | member own later member full laterRun older aged alone =>
      refine .member own later member (fullRun_of_left remains full) (fullRun_of_left remains laterRun) older ?_ ?_
      · intro other there belongs
        refine aged other ((remains other).mpr ⟨there, fun expires => ?_⟩) belongs
        exact kept ((whole_of_expires belongs expires).1 row member)
      · intro other there dependent owner
        by_cases gone : Expires isOld copies other
        · exact grows other (aged_of_expires dependent gone)
        · have stays := (remains other).mpr ⟨there, gone⟩
          exact alone other stays dependent ((owner_left_iff remains stays dependent).mpr owner)
  · intro expires
    cases expires with
    | beforeFulls dependent aged fulls before =>
      obtain ⟨full, run⟩ := fulls
      obtain ⟨newest, newestRun, _⟩ := exists_newest remains run
      exact .beforeFulls dependent aged ⟨newest, newestRun⟩ fun other otherRun =>
        before other (fullRun_of_left remains otherRun)
    | dependent own later dependent aged owner laterRun older =>
      obtain ⟨newest, newestRun, above⟩ := exists_newest remains laterRun
      exact .dependent own newest dependent aged ((owner_left_iff remains stays dependent).mpr owner) newestRun
        (older.trans_le above)
    | member own later member full laterRun older aged alone =>
      obtain ⟨newest, newestRun, above⟩ := exists_newest remains laterRun
      refine .member own newest member (fullRun_left remains full stays (Or.inl member)) newestRun
        (older.trans_le above) ?_ ?_
      · intro other there
        exact aged other ((remains other).mp there).1
      · intro other there dependent owner
        exact alone other ((remains other).mp there).1 dependent ((owner_left_iff remains there dependent).mp owner)

end Left

end Copies

/-! ## Plans -/

section Plans

variable {strptime : String → Option Instant} {offload : BackupOffload} {rows : List CatalogFile}

/-- The copies of a row's database that a plan expires at a time. -/
def ExpiresAt (strptime : String → Option Instant) (offload : BackupOffload) (now : Instant) (rows : List CatalogFile)
    (row : CatalogFile) : Prop :=
  Expires (fun other => old strptime offload now other = some true)
    (rows.filter fun other => other.database = row.database) row

/-- Age only grows. -/
theorem old_later {now later : Instant} (order : now ≤ later) {row : CatalogFile}
    (aged : old strptime offload now row = some true) : old strptime offload later row = some true := by
  unfold old at aged ⊢
  dsimp only at aged ⊢
  split
  next never =>
    rw [if_pos never] at aged
    exact aged
  next counted =>
    rw [if_neg counted] at aged
    obtain ⟨ended, read, past⟩ := Option.map_eq_some_iff.mp aged
    rw [decide_eq_true_eq] at past
    rw [read, Option.map_some, decide_eq_true (past.trans_le (Int.sub_le_sub_right order ended))]

theorem mem_passes_iff (times : List Instant) (last : Instant) (ordered : (times ++ [last]).Pairwise (· ≤ ·))
    {left : List CatalogFile} (ran : passes strptime offload (times ++ [last]) rows = some left) (row : CatalogFile) :
    row ∈ left ↔ row ∈ rows ∧ ¬ExpiresAt strptime offload last rows row := by
  induction times generalizing rows with
  | nil =>
    obtain ⟨plan, planned, ended⟩ := Option.bind_eq_some_iff.mp ran
    cases ended
    rw [List.mem_filter, decide_eq_true_eq, mem_expire_iff planned]
    exact and_congr_right fun present => by simp [present, ExpiresAt]
  | cons now times ih =>
    obtain ⟨plan, planned, ended⟩ := Option.bind_eq_some_iff.mp ran
    obtain ⟨before, later⟩ := List.pairwise_cons.mp ordered
    rw [ih later ended, List.mem_filter, decide_eq_true_eq, and_assoc]
    refine and_congr_right fun present => ?_
    -- of one database, what the first pass leaves
    have remains (database : String) (other : CatalogFile) :
        other ∈ (rows.filter fun row => row ∉ plan.expire).filter (fun row => row.database = database) ↔
          other ∈ rows.filter (fun row => row.database = database) ∧
            ¬Expires (fun row => old strptime offload now row = some true)
              (rows.filter fun row => row.database = database) other := by
      simp only [List.mem_filter, decide_eq_true_eq, mem_expire_iff planned]
      constructor
      · rintro ⟨⟨there, kept⟩, rfl⟩
        exact ⟨⟨there, rfl⟩, fun expires => kept ⟨there, expires⟩⟩
      · rintro ⟨⟨there, rfl⟩, kept⟩
        exact ⟨⟨there, fun gone => kept gone.2⟩, rfl⟩
    have grows (other : CatalogFile) := @old_later strptime offload now last (before last (by simp)) other
    by_cases gone : row ∈ plan.expire
    · have expires := ((mem_expire_iff planned row).mp gone).2
      exact iff_of_false (fun both => both.1 gone) fun kept => kept (expires_of_older grows expires)
    · have stays := (remains row.database row).mpr ⟨by simp [present], fun expires =>
        gone ((mem_expire_iff planned row).mpr ⟨present, expires⟩)⟩
      rw [and_iff_right gone]
      exact not_congr (expires_left_iff (remains row.database) grows stays)

/-- Where a plan expires a file of a full, the database has a later full, and the plan expires every file of that full
and every DIFF and LOG whose last full it is: no copy is left that was to be restored on it. -/
theorem full_expires_whole {now : Instant} {plan : Plan} (planned : expiryPlan strptime rows offload now = some plan)
    {row : CatalogFile} (expired : row ∈ plan.expire) {start : String} (member : row.Member start) :
    (∃ later, start < later ∧ FullRun (rows.filter fun other => other.database = row.database) later) ∧
      ∀ other ∈ rows, other.database = row.database →
        other.Member start ∨
          other.Dependent ∧ Owner (rows.filter fun copy => copy.database = row.database) other start →
        other ∈ plan.expire := by
  obtain ⟨_, expires⟩ := (mem_expire_iff planned row).mp expired
  obtain ⟨members, dependents⟩ := whole_of_expires member expires
  constructor
  · by_contra alone
    exact newest_stays (fun other full => not_lt.mp fun above => alone ⟨other, above, full⟩) (Or.inl member) expires
  · intro other present same held
    rw [mem_expire_iff planned, same]
    refine ⟨present, ?_⟩
    rcases held with belongs | ⟨dependent, owner⟩
    · exact members other belongs
    · exact dependents other (by simp [present, same]) dependent owner

/-- Passes at any times in order leave exactly the copies that the last of them would leave alone. -/
theorem passes_leave_what_one_leaves (times : List Instant) (last : Instant)
    (ordered : (times ++ [last]).Pairwise (· ≤ ·)) {left : List CatalogFile}
    (ran : passes strptime offload (times ++ [last]) rows = some left) {plan : Plan}
    (once : expiryPlan strptime rows offload last = some plan) (row : CatalogFile) :
    row ∈ left ↔ row ∈ rows ∧ row ∉ plan.expire := by
  rw [mem_passes_iff times last ordered ran, mem_expire_iff once]
  exact and_congr_right fun present => by simp [present, ExpiresAt]

end Plans

def firstStripe : CatalogFile := copy 1 .full "APP_FULL_1_of_2.bak" "2026-09-01T00:00:00Z" true

def secondStripe : CatalogFile := copy 2 .full "APP_FULL_2_of_2.bak" "2026-09-01T00:00:00Z" true

/-- A LOG that is restored on the striped full. -/
def septemberLog : CatalogFile := copy 3 .log "APP_LOG.trn" "2026-09-02T00:00:00Z" true

def stripedCopies : List CatalogFile :=
  [firstStripe, secondStripe, septemberLog, copy 4 .full "APP_FULL.bak" "2026-10-01T00:00:00Z" true]

theorem striped_planned : expiryPlan readUtc stripedCopies ⟨7 * 86400, 7 * 86400, 7 * 86400⟩ noon =
    some ⟨[septemberLog, firstStripe, secondStripe], []⟩ := by
  decide +kernel

theorem striped_full_expires_whole :
    (∃ later, "2026-09-01T00:00:00Z" < later ∧
      FullRun (stripedCopies.filter fun other => other.database = firstStripe.database) later) ∧
    ∀ other ∈ stripedCopies, other.database = firstStripe.database →
      other.Member "2026-09-01T00:00:00Z" ∨
        other.Dependent ∧
          Owner (stripedCopies.filter fun copy => copy.database = firstStripe.database) other "2026-09-01T00:00:00Z" →
      other ∈ [septemberLog, firstStripe, secondStripe] :=
  full_expires_whole striped_planned
    (by decide : firstStripe ∈ [septemberLog, firstStripe, secondStripe]) ⟨rfl, Or.inl rfl⟩

theorem september_left_by_no_pass :
    september ∈ [copy 2 .full "APP_FULL_1_of_2.bak" "2026-10-30T00:00:00Z" true] ↔
      september ∈ repositoryCopies "app-full" halfCopied ∧ september ∉ [september] :=
  passes_leave_what_one_leaves [noon] (noon + 1) (by decide) (by decide +kernel)
    (by decide +kernel : expiryPlan readUtc (repositoryCopies "app-full" halfCopied) sevenDays (noon + 1) =
      some ⟨[september], []⟩) september

end DbaBrain.BackupRestore.RepositoryPasses
