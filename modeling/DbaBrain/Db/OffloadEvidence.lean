import DbaBrain.Db.BackupCatalogRun

/-!
# A source is deleted only after its copy was verified

The store holds the rule where a call names `offload_state` or
`source_deleted_at`; the table's own constraints hold it for the rest, save
where a condition is unknown or a name is the empty text.  A sequence of calls
that passes neither keeps the evidence of every deletion.
-/

namespace DbaBrain.Db.BackupCatalog

open DbaBrain.Foundation DbaBrain.Foundation.Sql DbaBrain.Foundation.Execution

/-- Neither NULL nor the empty text. -/
def Named (value : Value) : Prop := value ≠ .null ∧ value ≠ .text ""

def copyColumns : List BackupFileColumn := [.offloadServerId, .offloadPath, .offloadRunId, .offloadVerifiedAt]

/-- The columns the rule is about. -/
def evidenceColumns : List BackupFileColumn := .offloadState :: .sourceDeletedAt :: copyColumns

/-- What a row says of its repository copy is borne out by the row. -/
structure Evidence (row : BackupFileColumn → Value) : Prop where
  deleted : row .sourceDeletedAt ≠ .null →
    (row .offloadState = .text "verified" ∨ row .offloadState = .text "expired") ∧ Named (row .offloadVerifiedAt)
  verified : row .offloadState = .text "verified" → ∀ column ∈ copyColumns, Named (row column)

section Calls

variable {platform : Platform}

/-- What a recorded file may say of a copy it comes with. -/
structure SoundItem (platform : Platform) (item : Values BackupFileColumn) : Prop where
  stated : get item .sourceDeletedAt ≠ .null → get item .offloadVerifiedAt ≠ .null → get item .offloadState ≠ .null
  timed : get item .sourceDeletedAt ≠ .null → get item .offloadVerifiedAt ≠ .text ""
  named : platform.storage.bind .text (get item .offloadState) = some (.text "verified") →
    ∀ column ∈ copyColumns, get item column ≠ .text ""
  fresh : platform.storage.bind .text (get item .offloadState) ≠ some (.text "expired")

structure SoundChange (row : BackupFileColumn → Value) (values : Values BackupFileColumn) : Prop where
  /-- Where the store does not hold the rule, the names of the copy are not emptied. -/
  named : values .sourceDeletedAt = none → values .offloadState = none → row .offloadState = .text "verified" →
    ∀ column ∈ copyColumns, values column ≠ some (.text "")
  timed : values .sourceDeletedAt = none → values .offloadState = none → row .sourceDeletedAt ≠ .null →
    values .offloadVerifiedAt ≠ some (.text "")
  /-- A moment that is there and Python takes for none is held to the rule as any other. -/
  falsy : values .sourceDeletedAt ≠ none ∨ values .offloadState ≠ none →
    (values .sourceDeletedAt).getD (row .sourceDeletedAt) ≠ .null →
    truthy ((values .sourceDeletedAt).getD (row .sourceDeletedAt)) = false →
      ((values .offloadState).getD (row .offloadState) = .text "verified" ∨
        (values .offloadState).getD (row .offloadState) = .text "expired") ∧
        truthy ((values .offloadVerifiedAt).getD (row .offloadVerifiedAt)) = true
  expires : values .offloadState = some (.text "expired") →
    row .offloadState = .text "verified" ∨ row .offloadState = .text "expired"

/-- The call passes nothing the rule does not reach. -/
def SoundCall (catalog : Catalog platform) : Call → Prop
  | .recordBackup _ items => ∀ item ∈ items, SoundItem platform item
  | .recordBackupFile values => SoundItem platform values
  | .setBackupFile id values => ∀ row, catalog.files.get? id = some row → SoundChange row values
  | _ => True

variable {value : Value} {row : BackupFileColumn → Value}

theorem truthy_named (set : truthy value = true) : Named value := by
  constructor
  · rintro rfl
    cases set
  · rintro rfl
    simp [truthy] at set

theorem named_of_not_blank (there : blank value = false) : Named value := by
  simpa [blank, Named] using there

theorem named_bind {affinity : Affinity} {held : Value} (named : Named value)
    (bound : platform.storage.bind affinity value = some held) : Named held := by
  constructor
  · rintro rfl
    exact named.1 (platform.storage.eq_null bound)
  · rintro rfl
    exact named.2 (platform.storage.eq_empty bound)

theorem Evidence.congr {other : BackupFileColumn → Value} (evidence : Evidence row)
    (same : ∀ column ∈ evidenceColumns, other column = row column) : Evidence other := by
  have state := same .offloadState (by simp [evidenceColumns])
  have deleted := same .sourceDeletedAt (by simp [evidenceColumns])
  have verified := same .offloadVerifiedAt (by simp [evidenceColumns, copyColumns])
  constructor
  · rw [state, deleted, verified]
    exact evidence.deleted
  · intro isVerified column member
    rw [same column (by simp [evidenceColumns, member])]
    exact evidence.verified (state ▸ isVerified) column member

/-! ## What the table's constraints hold -/

section Constraints

variable {row : BackupFileColumn → Value} (valid : backupFiles.Valid row)

include valid

theorem verified_set (verified : row .offloadState = .text "verified") (column : BackupFileColumn)
    (member : column ∈ copyColumns) : row column ≠ .null := by
  have passes := valid.checks BackupFileColumn.offloadVerified (by simp [backupFiles, BackupFileColumn.checks])
  rcases Truth.or_passes passes with outside | inside
  · rw [verified] at outside
    exact absurd outside (by decide)
  · obtain ⟨inner, time⟩ := Truth.and_passes inside
    obtain ⟨inner, run⟩ := Truth.and_passes inner
    obtain ⟨server, path⟩ := Truth.and_passes inner
    rw [Value.isSet_passes] at server path run time
    simp only [copyColumns, List.mem_cons, List.not_mem_nil, or_false] at member
    rcases member with rfl | rfl | rfl | rfl
    · exact server
    · exact path
    · exact run
    · exact time

theorem deleted_state (deleted : row .sourceDeletedAt ≠ .null) (known : row .offloadState ≠ .null) :
    row .offloadState = .text "verified" ∨ row .offloadState = .text "expired" := by
  have passes := valid.checks BackupFileColumn.sourceDeletedAfterCopy (by simp [backupFiles, BackupFileColumn.checks])
  rcases Truth.or_passes passes with outside | inside
  · exact absurd (Value.isNull_passes.mp outside) deleted
  · rcases Value.oneOf_passes (Truth.and_passes inside).1 with null | ⟨word, listed, state⟩
    · exact absurd null known
    · simp only [List.mem_cons, List.not_mem_nil, or_false] at listed
      rcases listed with rfl | rfl
      · exact Or.inl state
      · exact Or.inr state

theorem deleted_timed (deleted : row .sourceDeletedAt ≠ .null) : row .offloadVerifiedAt ≠ .null := by
  have passes := valid.checks BackupFileColumn.sourceDeletedAfterCopy (by simp [backupFiles, BackupFileColumn.checks])
  rcases Truth.or_passes passes with outside | inside
  · exact absurd (Value.isNull_passes.mp outside) deleted
  · exact Value.isSet_passes.mp (Truth.and_passes inside).2

end Constraints

/-! ## Recorded files -/

/-- The offload columns have no default. -/
theorem default_eq_null {column : BackupFileColumn} (member : column ∈ evidenceColumns) (now : String) :
    backupFiles.default now column = .null := by
  simp only [evidenceColumns, copyColumns, List.mem_cons, List.not_mem_nil, or_false] at member
  rcases member with rfl | rfl | rfl | rfl | rfl | rfl <;> rfl

section Recorded

variable {item values : Values BackupFileColumn} {now : String}
  (same : ∀ column, column ≠ .backupRunId → column ≠ .chainParentFileId → values column = item column)
  (binds : backupFiles.Binds platform.storage values)

include same binds

/-- An offload column of a recorded row holds what the item gave, and nothing where it gave nothing. -/
theorem recorded_bind {column : BackupFileColumn} (member : column ∈ evidenceColumns) :
    (get item column = .null ∧ backupFiles.inserted platform.storage now values column = .null) ∨
      (get item column ≠ .null ∧ platform.storage.bind (backupFiles.affinity column) (get item column) =
        some (backupFiles.inserted platform.storage now values column)) := by
  have named : values column = item column := by
    refine same column ?_ ?_ <;>
      (rintro rfl; simp [evidenceColumns, copyColumns] at member)
  by_cases given : get item column = .null
  · have null : (values column).getD .null = .null := by
      rw [named]
      exact given
    exact Or.inl ⟨given, (backupFiles.inserted_of_null platform.storage null now).trans (default_eq_null member now)⟩
  · have set : (values column).getD .null ≠ .null := by
      rw [named]
      exact given
    have bound := backupFiles.bind_inserted platform.storage binds set now
    rw [named] at bound
    exact Or.inr ⟨given, bound⟩

theorem evidence_recorded (sound : SoundItem platform item)
    (valid : backupFiles.Valid (backupFiles.inserted platform.storage now values)) :
    Evidence (backupFiles.inserted platform.storage now values) ∧
      backupFiles.inserted platform.storage now values .offloadState ≠ .text "expired" := by
  have stored (column : BackupFileColumn) (member : column ∈ evidenceColumns) :
      (get item column = .null ∧ backupFiles.inserted platform.storage now values column = .null) ∨
        (get item column ≠ .null ∧ platform.storage.bind (backupFiles.affinity column) (get item column) =
          some (backupFiles.inserted platform.storage now values column)) := recorded_bind same binds member
  generalize backupFiles.inserted platform.storage now values = row at stored valid ⊢
  have given {column : BackupFileColumn} (member : column ∈ evidenceColumns) (set : row column ≠ .null) :
      get item column ≠ .null ∧ platform.storage.bind (backupFiles.affinity column) (get item column) =
        some (row column) :=
    (stored column member).resolve_left fun null => set null.2
  have unempty {column : BackupFileColumn} (member : column ∈ evidenceColumns) (set : row column ≠ .null)
      (given' : get item column ≠ .text "") : Named (row column) := by
    refine ⟨set, ?_⟩
    intro empty
    have bound := (given member set).2
    rw [empty] at bound
    exact given' (platform.storage.eq_empty bound)
  have stateMember : BackupFileColumn.offloadState ∈ evidenceColumns := by simp [evidenceColumns]
  have timeMember : BackupFileColumn.offloadVerifiedAt ∈ evidenceColumns := by simp [evidenceColumns, copyColumns]
  refine ⟨⟨?_, ?_⟩, ?_⟩
  · intro deleted
    have stamped := (given (by simp [evidenceColumns]) deleted).1
    have time := deleted_timed valid deleted
    have stated := sound.stated stamped (given timeMember time).1
    have known : row .offloadState ≠ .null := by
      rcases stored .offloadState stateMember with ⟨null, _⟩ | ⟨_, bound⟩
      · exact absurd null stated
      · intro null
        rw [null] at bound
        exact stated (platform.storage.eq_null bound)
    exact ⟨deleted_state valid deleted known, unempty timeMember time (sound.timed stamped)⟩
  · intro verified column member
    have bound := (given stateMember (by rw [verified]; decide)).2
    rw [verified] at bound
    exact unempty (by simp [evidenceColumns, member]) (verified_set valid verified column member)
      (sound.named bound column member)
  · intro expired
    have bound := (given stateMember (by rw [expired]; decide)).2
    rw [expired] at bound
    exact sound.fresh bound

end Recorded

/-! ## Changed files -/

variable {values : Values BackupFileColumn} {start : Catalog platform} {calls : List (Clock × Call)}
  {step : Clock × Call}

theorem holdOffload_verified (held : holdOffload (some row) values = .ok ())
    (verified : (values .offloadState).getD (row .offloadState) = .text "verified") :
    ∀ column ∈ copyColumns, blank ((values column).getD (row column)) = false := by
  rw [holdOffload] at held
  dsimp only at held
  split at held
  · cases held
  · rename_i whole
    intro column member
    by_contra empty
    exact whole ⟨verified, column, member, Bool.eq_true_of_not_eq_false empty⟩

theorem holdOffload_deleted (held : holdOffload (some row) values = .ok ())
    (deleted : truthy ((values .sourceDeletedAt).getD (row .sourceDeletedAt)) = true) :
    ((values .offloadState).getD (row .offloadState) = .text "verified" ∨
      (values .offloadState).getD (row .offloadState) = .text "expired") ∧
      truthy ((values .offloadVerifiedAt).getD (row .offloadVerifiedAt)) = true := by
  rw [holdOffload] at held
  dsimp only at held
  split at held
  · cases held
  · split at held
    · cases held
    · split at held
      · cases held
      · rename_i released
        by_contra unproven
        exact released ⟨deleted, unproven⟩

section Changed

variable {old new : BackupFileColumn → Value} {values : Values BackupFileColumn}

/-- The row a change leaves, of the columns the rule is about. -/
def ChangedBy (platform : Platform) (values : Values BackupFileColumn) (old new : BackupFileColumn → Value) : Prop :=
  ∀ column ∈ evidenceColumns, (values column = none ∧ new column = old column) ∨
    ∃ value, values column = some value ∧ platform.storage.bind (backupFiles.affinity column) value = some (new column)

variable {column : BackupFileColumn} {word : String}

theorem ChangedBy.named (changed : ChangedBy platform values old new) (member : column ∈ evidenceColumns)
    (named : Named ((values column).getD (old column))) : Named (new column) := by
  rcases changed column member with ⟨unnamed, same⟩ | ⟨value, given, bound⟩
  · rw [unnamed, Option.getD_none] at named
    exact same ▸ named
  · rw [given, Option.getD_some] at named
    exact named_bind named bound

theorem ChangedBy.state (changed : ChangedBy platform values old new)
    (state : (values .offloadState).getD (old .offloadState) = .text word) : new .offloadState = .text word := by
  rcases changed .offloadState (by simp [evidenceColumns]) with ⟨unnamed, same⟩ | ⟨value, given, bound⟩
  · rw [unnamed, Option.getD_none] at state
    exact same.trans state
  · rw [given, Option.getD_some] at state
    rw [state] at bound
    exact (Option.some.inj ((platform.storage.bind_text word).symm.trans bound)).symm

/-- A state that is set was one of the words the store accepts, so the store read it as it is stored. -/
theorem ChangedBy.merged (changed : ChangedBy platform values old new)
    (allowed : get values .offloadState = .null ∨ ∃ word ∈ offloadStates, get values .offloadState = .text word)
    (state : new .offloadState = .text word) : (values .offloadState).getD (old .offloadState) = .text word := by
  rcases changed .offloadState (by simp [evidenceColumns]) with ⟨unnamed, same⟩ | ⟨value, given, bound⟩
  · rw [unnamed, Option.getD_none]
    exact same ▸ state
  · rw [state] at bound
    rw [get, given, Option.getD_some] at allowed
    rw [given, Option.getD_some]
    rcases allowed with rfl | ⟨spelled, _, rfl⟩
    · cases (platform.storage.bind_null _).symm.trans bound
    · exact Option.some.inj ((platform.storage.bind_text spelled).symm.trans bound)

theorem ChangedBy.unempty (changed : ChangedBy platform values old new) (member : column ∈ evidenceColumns)
    (set : new column ≠ .null) (before : Named (old column)) (kept : values column ≠ some (.text "")) :
    Named (new column) := by
  rcases changed column member with ⟨_, same⟩ | ⟨value, given, bound⟩
  · exact same ▸ before
  · refine ⟨set, ?_⟩
    intro empty
    rw [empty] at bound
    exact kept (given.trans (congrArg some (platform.storage.eq_empty bound)))

variable (changed : ChangedBy platform values old new) (evidence : Evidence old) (sound : SoundChange old values)
  (valid : backupFiles.Valid new)

include changed evidence sound valid

/-- Where the call names neither guarded column, the row's own evidence and the table's constraints carry over. -/
theorem evidence_unguarded (deleted : values .sourceDeletedAt = none) (state : values .offloadState = none) :
    Evidence new := by
  have kept {column : BackupFileColumn} (member : column ∈ evidenceColumns) (unnamed : values column = none) :
      new column = old column := by
    rcases changed column member with ⟨_, same⟩ | ⟨value, given, _⟩
    · exact same
    · cases unnamed.symm.trans given
  have sameState := kept (by simp [evidenceColumns]) state
  have sameDeleted := kept (by simp [evidenceColumns]) deleted
  constructor
  · intro stamped
    have before := sameDeleted ▸ stamped
    obtain ⟨known, timed⟩ := evidence.deleted before
    refine ⟨sameState ▸ known, changed.unempty (by simp [evidenceColumns, copyColumns]) ?_ timed ?_⟩
    · exact deleted_timed valid stamped
    · exact sound.timed deleted state before
  · intro verified column member
    have before := sameState ▸ verified
    exact changed.unempty (by simp [evidenceColumns, member]) (verified_set valid verified column member)
      (evidence.verified before column member) (sound.named deleted state before column member)

omit evidence valid in
/-- Where the call names one of them, the store has held the rule to the row and the call together. -/
theorem evidence_guarded (guarded : values .sourceDeletedAt ≠ none ∨ values .offloadState ≠ none)
    (held : holdOffload (some old) values = .ok ())
    (allowed : get values .offloadState = .null ∨ ∃ word ∈ offloadStates, get values .offloadState = .text word) : Evidence new := by
  constructor
  · intro stamped
    have moment : (values .sourceDeletedAt).getD (old .sourceDeletedAt) ≠ .null := by
      intro null
      rcases changed .sourceDeletedAt (by simp [evidenceColumns]) with ⟨unnamed, same⟩ | ⟨value, given, bound⟩
      · rw [unnamed, Option.getD_none] at null
        exact stamped (same.trans null)
      · rw [given, Option.getD_some] at null
        rw [null, platform.storage.bind_null] at bound
        exact stamped (Option.some.inj bound).symm
    have merged : ((values .offloadState).getD (old .offloadState) = .text "verified" ∨
        (values .offloadState).getD (old .offloadState) = .text "expired") ∧
        truthy ((values .offloadVerifiedAt).getD (old .offloadVerifiedAt)) = true := by
      cases there : truthy ((values .sourceDeletedAt).getD (old .sourceDeletedAt)) with
      | true => exact holdOffload_deleted held there
      | false => exact sound.falsy guarded moment there
    refine ⟨merged.1.imp changed.state changed.state, ?_⟩
    exact changed.named (by simp [evidenceColumns, copyColumns]) (truthy_named merged.2)
  · intro verified column member
    have state := changed.merged allowed verified
    exact changed.named (by simp [evidenceColumns, member])
      (named_of_not_blank (holdOffload_verified held state column member))

omit evidence valid in
theorem expired_changed
    (allowed : get values .offloadState = .null ∨ ∃ word ∈ offloadStates, get values .offloadState = .text word)
    (expired : new .offloadState = .text "expired") :
    old .offloadState = .text "verified" ∨ old .offloadState = .text "expired" := by
  have merged := changed.merged allowed expired
  cases given : values .offloadState with
  | none =>
    rw [given, Option.getD_none] at merged
    exact Or.inr merged
  | some value =>
    rw [given, Option.getD_some] at merged
    exact sound.expires (given.trans (congrArg some merged))

end Changed

/-! ## One call -/

section OneCall

variable {clock : Clock} {catalog after : Catalog platform} {call : Call}

/-- Every row bears out what it says of its copy, and a copy that is expired was verified or expired in `before`. -/
def Borne (before files : Rows platform.storage backupFiles) : Prop :=
  ∀ id row, files.get? id = some row → Evidence row ∧ (row .offloadState = .text "expired" →
    ∃ old, before.get? id = some old ∧ (old .offloadState = .text "verified" ∨ old .offloadState = .text "expired"))

theorem borne_self {files : Rows platform.storage backupFiles}
    (evidence : ∀ id row, files.get? id = some row → Evidence row) : Borne files files :=
  fun id row found => ⟨evidence id row found, fun expired => ⟨row, found, Or.inr expired⟩⟩

variable {values : Values BackupFileColumn}

variable {before table next : Rows platform.storage backupFiles} {id : Int} {now : String}

/-- A statement that leaves the columns of the rule alone. -/
theorem borne_update (apart : ∀ column ∈ evidenceColumns, values column = none)
    (ran : table.update? id values = some next) (borne : Borne before table) : Borne before next := by
  rcases Rows.updated_of_update? ran with ⟨_, rfl⟩ | ⟨old, updated⟩
  · exact borne
  · intro other row found
    rw [updated.get?] at found
    split at found
    · rename_i same
      obtain rfl := Option.some.inj found
      have kept (column : BackupFileColumn) (member : column ∈ evidenceColumns) :
          backupFiles.updated platform.storage values old column = old column :=
        backupFiles.updated_of_none platform.storage (apart column member) old
      obtain ⟨evidence, expires⟩ := borne id old updated.found
      refine ⟨evidence.congr kept, ?_⟩
      rw [kept .offloadState (by simp [evidenceColumns]), same]
      exact expires
    · exact borne other row found

theorem borne_insert {item : Values BackupFileColumn} (sound : SoundItem platform item)
    (same : ∀ column, column ≠ .backupRunId → column ≠ .chainParentFileId → values column = item column)
    (ran : table.write? (.insert now values) = some next) (borne : Borne before table) : Borne before next := by
  obtain ⟨⟨id, answer⟩, inserted, rfl⟩ := Option.map_eq_some_iff.mp ran
  obtain ⟨_, spec⟩ := Rows.inserted_of_insert? inserted
  obtain ⟨evidence, fresh⟩ := evidence_recorded same spec.binds sound spec.valid
  intro other row found
  rw [spec.get?] at found
  split at found
  · obtain rfl := Option.some.inj found
    exact ⟨evidence, fun expired => absurd expired fresh⟩
  · exact borne other row found

theorem apart_of_noted (columns : ∀ column, values column ≠ none → column ∈ notedColumns) (column : BackupFileColumn)
    (member : column ∈ evidenceColumns) : values column = none := by
  by_contra named
  have noted := columns column named
  revert member noted
  cases column <;> simp [evidenceColumns, copyColumns, notedColumns]

theorem apart_of_hashed (hash : String) (column : BackupFileColumn) (member : column ∈ evidenceColumns) :
    single BackupFileColumn.rowHash (.text hash) column = none := by
  refine if_neg ?_
  rintro rfl
  simp [evidenceColumns, copyColumns] at member

theorem borne_of_written (sound : ∀ item ∈ call.items, SoundItem platform item)
    (others : ∀ id values, call ≠ .setBackupFile id values)
    (written : Rows.Written (FileWrite call) catalog.files after.files)
    (evidence : ∀ id row, catalog.files.get? id = some row → Evidence row) :
    Borne catalog.files after.files := by
  have each (table : Rows platform.storage backupFiles) (write : Rows.Write BackupFileColumn)
      (next : Rows platform.storage backupFiles) (kind : FileWrite call write)
      (ran : table.write? write = some next) (borne : Borne catalog.files table) : Borne catalog.files next := by
    cases kind with
    | recorded now item values member same => exact borne_insert (sound item member) same ran borne
    | hashed id hash records => exact borne_update (apart_of_hashed hash) ran borne
    | set id values now named => exact absurd named (others id values)
    | noted id values columns => exact borne_update (apart_of_noted columns) ran borne
  exact Rows.Written.preserves each written (borne_self evidence)

theorem changedBy_updated (old : BackupFileColumn → Value)
    (binds : backupFiles.Binds platform.storage (extended values (single .updatedAt (.text now)))) :
    ChangedBy platform values old
      (backupFiles.updated platform.storage (extended values (single .updatedAt (.text now))) old) := by
  intro column member
  have named : extended values (single .updatedAt (.text now)) column = values column := by
    have stamp : column ≠ .updatedAt := by
      rintro rfl
      simp [evidenceColumns, copyColumns] at member
    simp [extended, single, stamp]
  cases given : values column with
  | none => exact Or.inl ⟨rfl, backupFiles.updated_of_none platform.storage (named.trans given) old⟩
  | some value =>
    exact Or.inr ⟨value, rfl, backupFiles.bind_updated platform.storage binds (named.trans given) old⟩

theorem borne_setBackupFile (sound : ∀ row, catalog.files.get? id = some row → SoundChange row values)
    (evidence : ∀ id row, catalog.files.get? id = some row → Evidence row)
    (ok : setBackupFile clock catalog id values catalog = .ok after) : Borne catalog.files after.files := by
  have set := fileSet_of_ok ok
  rcases Rows.updated_of_update? set.written with ⟨_, same⟩ | ⟨old, updated⟩
  · rw [same]
    exact borne_self evidence
  · have changed := changedBy_updated old updated.binds
    have sound := sound old updated.found
    intro other row found
    rw [updated.get?] at found
    split at found
    · rename_i same
      obtain rfl := Option.some.inj found
      constructor
      · by_cases guarded : values .sourceDeletedAt ≠ none ∨ values .offloadState ≠ none
        · have held := set.held guarded
          rw [updated.found] at held
          exact evidence_guarded changed sound guarded held set.offloadState
        · obtain ⟨deleted, state⟩ := not_or.mp guarded
          exact evidence_unguarded changed (evidence id old updated.found) sound updated.valid (not_not.mp deleted)
            (not_not.mp state)
      · intro expired
        exact ⟨old, same ▸ updated.found, expired_changed changed sound set.offloadState expired⟩
    · exact borne_self evidence other row found

/-- What one call preserves. -/
theorem borne_answered (evidence : ∀ id row, catalog.files.get? id = some row → Evidence row)
    (sound : SoundCall catalog call) : Borne catalog.files (answered clock catalog catalog call).files := by
  cases ran : perform clock catalog catalog call with
  | error refusal =>
    rw [answered, ran]
    exact borne_self evidence
  | ok after =>
    rw [answered, ran]
    have written := (effect_of_perform ran).files
    cases call with
    | setBackupFile id values => exact borne_setBackupFile sound evidence ran
    | recordBackup run items =>
      have items : ∀ item ∈ (Call.recordBackup run items).items, SoundItem platform item := sound
      exact borne_of_written items (fun _ _ => Call.noConfusion) written evidence
    | recordBackupFile values =>
      refine borne_of_written ?_ (fun _ _ => Call.noConfusion) written evidence
      intro item member
      exact List.mem_singleton.mp member ▸ sound
    | _ => exact borne_of_written (fun _ none => absurd none List.not_mem_nil) (fun _ _ => Call.noConfusion) written evidence

end OneCall

/-! ## Sequences of calls -/

def SoundCalls (start : Catalog platform) (calls : List (Clock × Call)) : Prop :=
  ∀ earlier step later, calls = earlier ++ step :: later → SoundCall (sequence start earlier) step.2

theorem SoundCalls.init (sound : SoundCalls start (calls ++ [step])) : SoundCalls start calls := by
  rintro earlier other later rfl
  exact sound earlier other (later ++ [step]) (by simp)

/--
In every sequence of calls that are each sound on the catalog they find, from an
empty catalog: every file whose source is deleted has a copy that is verified or
expired and says when it was verified; every verified copy names its server,
path, run and time; and every expired copy was verified before.
-/
theorem deleted_only_after_verified (platform : Platform) (calls : List (Clock × Call))
    (sound : SoundCalls (Catalog.empty platform) calls) :
    ∀ id row, (sequence (Catalog.empty platform) calls).files.get? id = some row →
      (row .sourceDeletedAt ≠ .null →
        (row .offloadState = .text "verified" ∨ row .offloadState = .text "expired") ∧
          Named (row .offloadVerifiedAt)) ∧
      (row .offloadState = .text "verified" → ∀ column ∈ copyColumns, Named (row column)) ∧
      (row .offloadState = .text "expired" → ∃ earlier later before, calls = earlier ++ later ∧
        (sequence (Catalog.empty platform) earlier).files.get? id = some before ∧
          before .offloadState = .text "verified") := by
  induction calls using List.reverseRecOn with
  | nil =>
      intro id row found
      cases found
  | append_singleton calls step ih =>
      have reached := ih sound.init
      have evidence : ∀ id row, (sequence (Catalog.empty platform) calls).files.get? id = some row → Evidence row :=
        fun id row found => ⟨(reached id row found).1, (reached id row found).2.1⟩
      intro id row found
      rw [sequence_concat] at found
      obtain ⟨borne, expires⟩ := borne_answered evidence (sound calls step [] rfl) id row found
      refine ⟨borne.deleted, borne.verified, ?_⟩
      intro expired
      obtain ⟨old, foundOld, verified | before⟩ := expires expired
      · exact ⟨calls, [step], old, rfl, foundOld, verified⟩
      · obtain ⟨earlier, later, first, rfl, foundFirst, verified⟩ := (reached id old foundOld).2.2 before
        exact ⟨earlier, later ++ [step], first, by simp, foundFirst, verified⟩

theorem soundCalls_cons (first : SoundCall start step.2) (rest : SoundCalls (answered step.1 start start step.2) calls) :
    SoundCalls start (step :: calls) := by
  intro earlier other later split
  cases earlier with
  | nil =>
    obtain ⟨rfl, rfl⟩ := List.cons.inj split
    exact first
  | cons head earlier =>
    obtain ⟨rfl, rfl⟩ := List.cons.inj split
    exact rest earlier other later rfl

end Calls

/-! ### A file that is copied, verified and released -/

def verifiedCopy : Values BackupFileColumn
  | .offloadState => some (.text "verified")
  | .offloadServerId => some (.text "R")
  | .offloadPath => some (.text "/r/a.bak")
  | .offloadRunId => some (.integer 1)
  | .offloadVerifiedAt => some (.text "2026-10-30T02:05:00Z")
  | _ => none

def releasedSource : Values BackupFileColumn
  | .state => some (.text "pruned")
  | .sourceDeletedAt => some (.text "2026-10-30T02:06:00Z")
  | _ => none

def releaseCalls : List (Clock × Call) :=
  [(nightly, .recordBackupFile writtenFile), (nightly, .setBackupFile 1 verifiedCopy),
    (nightly, .setBackupFile 1 releasedSource)]

def releasedFile : BackupFileColumn → Value :=
  ((sequence (Catalog.empty textDigest) releaseCalls).files.get? 1).getD fun _ => .null

theorem sound_releaseCalls : SoundCalls (Catalog.empty textDigest) releaseCalls := by
  refine soundCalls_cons ?_ (soundCalls_cons ?_ (soundCalls_cons ?_ ?_))
  · constructor
    · exact fun stamped => absurd rfl stamped
    · exact fun stamped => absurd rfl stamped
    · exact fun state => absurd state (by decide)
    · decide
  · intro row _
    constructor
    · exact fun _ unnamed => absurd unnamed nofun
    · exact fun _ unnamed => absurd unnamed nofun
    · exact fun _ _ _ => ⟨Or.inl rfl, rfl⟩
    · exact fun expired => absurd expired (by decide)
  · intro row _
    constructor
    · exact fun unnamed => absurd unnamed nofun
    · exact fun unnamed => absurd unnamed nofun
    · intro _ _ falsy
      simp [releasedSource, truthy] at falsy
    · exact fun expired => absurd expired (by decide)
  · intro earlier step later split
    exact absurd split (by simp)

theorem deleted_only_after_verified_released :
    releasedFile .sourceDeletedAt ≠ .null ∧
      (releasedFile .offloadState = .text "verified" ∨ releasedFile .offloadState = .text "expired") ∧
        Named (releasedFile .offloadVerifiedAt) := by
  have there : ((sequence (Catalog.empty textDigest) releaseCalls).files.get? 1).isSome = true := by decide +kernel
  have found : (sequence (Catalog.empty textDigest) releaseCalls).files.get? 1 = some releasedFile := by
    obtain ⟨row, held⟩ := Option.isSome_iff_exists.mp there
    rw [releasedFile, held, Option.getD_some]
  have deleted : releasedFile .sourceDeletedAt ≠ .null := by decide +kernel
  exact ⟨deleted, (deleted_only_after_verified textDigest releaseCalls sound_releaseCalls 1 releasedFile found).1
    deleted⟩

/-- A file recorded with a deleted source and the time of a copy, and no state of one. -/
def unstatedRelease : Values BackupFileColumn
  | .sourceDeletedAt => some (.text "2026-10-30T02:06:00Z")
  | .offloadVerifiedAt => some (.text "2026-10-30T02:05:00Z")
  | column => writtenFile column

/-- The table's condition is unknown of it, and passes. -/
theorem recorded_deleted_without_a_copy :
    ¬∀ (calls : List (Clock × Call)) (id : Int) (row : BackupFileColumn → Value),
      (sequence (Catalog.empty textDigest) calls).files.get? id = some row → row .sourceDeletedAt ≠ .null →
        row .offloadState = .text "verified" ∨ row .offloadState = .text "expired" := by
  intro always
  have there : (((sequence (Catalog.empty textDigest) [(nightly, .recordBackupFile unstatedRelease)]).files.get? 1).map
      fun row => (row .sourceDeletedAt, row .offloadState)) = some (.text "2026-10-30T02:06:00Z", .null) := by
    decide +kernel
  obtain ⟨row, found, columns⟩ := Option.map_eq_some_iff.mp there
  obtain ⟨deleted, state⟩ := Prod.mk.inj columns
  rcases always _ 1 row found (by rw [deleted]; decide) with verified | expired
  · cases state.symm.trans verified
  · cases state.symm.trans expired

end DbaBrain.Db.BackupCatalog
