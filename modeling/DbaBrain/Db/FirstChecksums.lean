import DbaBrain.Db.BackupCatalogRun

/-!
# First checksums and sizes are written once

The store refuses a rewrite on its own update path, from a row it read before;
the trigger refuses it again, of the row as it is.  A sequence of calls keeps
every first value, whatever the calls pass and whatever they read.
-/

namespace DbaBrain.Db.BackupCatalog

open DbaBrain.Foundation DbaBrain.Foundation.Sql DbaBrain.Foundation.Execution

section First

variable {platform : Platform}

/-- No row is lost in either table, and no first value changes. -/
structure KeepsFirst (catalog after : Catalog platform) : Prop where
  files : Rows.KeepsFirstValues catalog.files after.files
  runFiles : Rows.KeepsFirstValues catalog.runFiles after.runFiles

theorem keepsFirst_step (catalog : Catalog platform) (step : Step platform) :
    KeepsFirst catalog (step.run catalog) := by
  have effect := effect_of_answered step.clock step.seen catalog step.call
  exact ⟨Rows.keepsFirstValues_of_written effect.files, Rows.keepsFirstValues_of_written effect.runFiles⟩

theorem keepsFirst_run (catalog : Catalog platform) (steps : List (Step platform)) :
    KeepsFirst catalog (afterCalls catalog steps) := by
  induction steps generalizing catalog with
  | nil => exact ⟨.refl _, .refl _⟩
  | cons step rest ih =>
    have first := keepsFirst_step catalog step
    have later := ih (step.run catalog)
    exact ⟨first.files.trans later.files, first.runFiles.trans later.runFiles⟩

variable {κ : Type} {id : Int} {values : Values κ} {column : κ} {value : Value} {clock : Clock}
  {seen catalog : Catalog platform}

variable {storage : Storage} {schema : Schema κ} {table : Rows storage schema} {row : κ → Value}

/-- An update that would change a first value is refused by the database, whatever the store compared. -/
theorem update?_refuses (found : table.get? id = some row) (first : column ∈ schema.firsts) (there : row column ≠ .null)
    (named : values column = some value) (changes : storage.bind (schema.affinity column) value ≠ some (row column)) :
    table.update? id values = none := by
  cases ran : table.update? id values with
  | none => rfl
  | some after =>
    rcases Rows.updated_of_update? ran with ⟨absent, _⟩ | ⟨old, spec⟩
    · cases absent.symm.trans found
    · obtain rfl := Option.some.inj (spec.found.symm.trans found)
      have kept := spec.firsts_eq first there
      have bound := schema.getD_bind storage spec.binds named
      have stored : schema.updated storage values old column =
          (storage.bind (schema.affinity column) value).getD .null := by
        rw [Schema.updated, named]
      rw [← stored, kept] at bound
      exact absurd bound changes

theorem update_refuses {seen : Rows storage schema} (found : table.get? id = some row) (first : column ∈ schema.firsts)
    (there : row column ≠ .null) (named : values column = some value)
    (changes : storage.bind (schema.affinity column) value ≠ some (row column)) (after : Rows storage schema) :
    update seen id values table ≠ .ok after := by
  intro ok
  have ran := update_ok ok
  rw [Rows.write?, update?_refuses found first there named changes] at ran
  cases ran

theorem answered_of_not_ok {call : Call} (refused : ∀ after, perform clock seen catalog call ≠ .ok after) :
    answered clock seen catalog call = catalog := by
  rw [answered]
  split
  · rename_i after ran
    exact absurd ran (refused after)
  · rfl

theorem extended_updatedAt [DecidableEq κ] {stamp : κ} {now : Value} (apart : column ≠ stamp) :
    extended values (single stamp now) column = values column := by
  simp [extended, single, apart]

theorem setBackupFile_refuses {values : Values BackupFileColumn} {row : BackupFileColumn → Value}
    (found : catalog.files.get? id = some row) {column : BackupFileColumn} (first : column ∈ backupFiles.firsts)
    (there : row column ≠ .null) (named : values column = some value)
    (changes : platform.storage.bind (backupFiles.affinity column) value ≠ some (row column)) :
    answered clock seen catalog (.setBackupFile id values) = catalog := by
  apply answered_of_not_ok
  intro after ok
  rw [perform, setBackupFile] at ok
  iterate 6 obtain ⟨_, _, ok⟩ := bind_eq_ok ok
  obtain ⟨files, updated, ok⟩ := bind_eq_ok ok
  have stamp : column ≠ .updatedAt := by
    rintro rfl
    simp [backupFiles] at first
  exact update_refuses found first there ((extended_updatedAt stamp).trans named) changes files updated

theorem setRunFile_refuses {values : Values RestoreRunFileColumn} {row : RestoreRunFileColumn → Value}
    (found : catalog.runFiles.get? id = some row) {column : RestoreRunFileColumn}
    (first : column ∈ restoreRunFiles.firsts) (there : row column ≠ .null) (named : values column = some value)
    (changes : platform.storage.bind (restoreRunFiles.affinity column) value ≠ some (row column)) :
    answered clock seen catalog (.setRunFile id values) = catalog := by
  apply answered_of_not_ok
  intro after ok
  rw [perform, setRunFile] at ok
  iterate 3 obtain ⟨_, _, ok⟩ := bind_eq_ok ok
  obtain ⟨runFiles, updated, ok⟩ := bind_eq_ok ok
  have stamp : column ≠ .updatedAt := by
    rintro rfl
    simp [restoreRunFiles] at first
  exact update_refuses found first there ((extended_updatedAt stamp).trans named) changes runFiles updated

end First

/--
From any catalog, in the state any sequence of calls leaves: every row of the
two tables is still there in the state any further calls leave, with each first
checksum and size it had; and a call that names a first value that is there, to
store anything else in its place, leaves the catalog as it was.
-/
theorem first_values_written_once {platform : Platform} (start : Catalog platform)
    (earlier later : List (Step platform)) :
    KeepsFirst (afterCalls start earlier) (afterCalls (afterCalls start earlier) later) ∧
    (∀ clock seen id row values, (afterCalls start earlier).files.get? id = some row →
      ∀ column ∈ [BackupFileColumn.checksumAfterBackup, .sizeBytes], row column ≠ .null →
        ∀ value, values column = some value →
          platform.storage.bind (backupFiles.affinity column) value ≠ some (row column) →
            answered clock seen (afterCalls start earlier) (.setBackupFile id values) = afterCalls start earlier) ∧
    (∀ clock seen id row values, (afterCalls start earlier).runFiles.get? id = some row →
      ∀ column ∈ [RestoreRunFileColumn.checksumAfterBackup, .checksumSourceBeforeCopy, .checksumTargetBeforeCopy,
        .checksumTargetAfterCopy, .sizeSourceBytes], row column ≠ .null →
        ∀ value, values column = some value →
          platform.storage.bind (restoreRunFiles.affinity column) value ≠ some (row column) →
            answered clock seen (afterCalls start earlier) (.setRunFile id values) = afterCalls start earlier) := by
  refine ⟨keepsFirst_run _ later, ?_, ?_⟩
  · intro clock seen id row values found column first there value named changes
    exact setBackupFile_refuses found first there named changes
  · intro clock seen id row values found column first there value named changes
    exact setRunFile_refuses found first there named changes

end DbaBrain.Db.BackupCatalog
