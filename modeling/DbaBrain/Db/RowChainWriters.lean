import DbaBrain.Db.RowChain
import DbaBrain.Db.BackupCatalogRun

/-!
# Writers of one hash chain

The statements the store's calls make on `backup_files`, in any order of any
number of open transactions.  A transaction reads what is committed and what it
wrote itself, so two that write one entry may hash their rows over the same one;
and `set_backup_file` accepts columns the hash covers.  A run without either
keeps every chain.
-/

namespace DbaBrain.Db.BackupCatalog

open DbaBrain.Foundation DbaBrain.Foundation.Sql DbaBrain.Foundation.Execution

structure Shared (platform : Platform) where
  files : Rows platform.storage backupFiles
  /-- The open transaction that wrote a row. -/
  writer : Int → Option Nat
  /-- The row a transaction has inserted and not hashed yet. -/
  unhashed : Nat → Option Int
  /-- The row whose hash a row's own was taken over. -/
  follows : Int → Option Int

/-- A statement of a call, or the end of its transaction. -/
inductive Statement
  | insert (writer : Nat) (now : String) (values : Values BackupFileColumn)
  | hash (writer : Nat)
  | commit (writer : Nat)
  | rollback (writer : Nat)
  | set (id : Int) (values : Values BackupFileColumn) (now : String)
  | note (id : Int) (values : Values BackupFileColumn)

/-- The newest hashed row of an entry before `id`. -/
def previousRow (rows : List FileRow) (backupId : Value) (id : Int) : Option FileRow :=
  (rows.filter fun entry => entry.1 < id ∧ (entry.2 .backupId).equal backupId = some true ∧
    entry.2 .rowHash ≠ .null).getLast?

section Machine

variable {platform : Platform}

namespace Shared

section Statements

variable (s : Shared platform)

def committed : List FileRow := s.files.rows.filter fun row => s.writer row.1 = none

/-- What a transaction reads. -/
def visible (writer : Nat) : List FileRow :=
  s.files.rows.filter fun row => s.writer row.1 = none ∨ s.writer row.1 = some writer

/-- A table on which no transaction is open. -/
def alone (files : Rows platform.storage backupFiles) (follows : Int → Option Int) : Shared platform :=
  ⟨files, fun _ => none, fun _ => none, follows⟩

/-- `INSERT` of `_insert_chained`. -/
def insert (writer : Nat) (now : String) (values : Values BackupFileColumn) : Option (Shared platform) :=
  if s.unhashed writer = none ∧ ∀ column ∈ BackupFileColumn.all, values column ≠ none → column ∈ BackupFileColumn.settable then
    (s.files.insert? now values).map fun inserted =>
      { s with
        files := inserted.2
        writer := Function.update s.writer inserted.1 (some writer)
        unhashed := Function.update s.unhashed writer (some inserted.1) }
  else none

/-- The row hash of `_insert_chained`, over the newest hash of the entry the transaction sees. -/
def hash (writer : Nat) : Option (Shared platform) :=
  (s.unhashed writer).bind fun id =>
    let stored := (s.files.get? id).getD fun _ => .null
    let previous := hashText platform (previousHash (s.visible writer) (stored .backupId) id)
    (s.files.update? id (single .rowHash (.text (rowHash platform stored previous)))).map fun files =>
      { s with
        files := files
        unhashed := Function.update s.unhashed writer none
        follows := Function.update s.follows id
          ((previousRow (s.visible writer) (stored .backupId) id).map Prod.fst) }

def commit (writer : Nat) : Option (Shared platform) :=
  if s.unhashed writer = none then
    some { s with writer := fun id => if s.writer id = some writer then none else s.writer id }
  else none

def rollback (writer : Nat) : Shared platform :=
  { s with
    files := s.files.without fun id => s.writer id = some writer
    unhashed := Function.update s.unhashed writer none }

/-- `UPDATE` of `set_backup_file`, on a row that is committed. -/
def set (id : Int) (values : Values BackupFileColumn) (now : String) : Option (Shared platform) :=
  if s.writer id = none ∧ values .checksumAfterBackup = none ∧
      ∀ column ∈ BackupFileColumn.all, values column ≠ none → column ∈ BackupFileColumn.settable then
    (s.files.update? id (extended values (single .updatedAt (.text now)))).map fun files => { s with files := files }
  else none

/-- `UPDATE` of a check or a use, on a row that is committed. -/
def note (id : Int) (values : Values BackupFileColumn) : Option (Shared platform) :=
  if s.writer id = none ∧ ∀ column ∈ BackupFileColumn.all, values column ≠ none → column ∈ notedColumns then
    (s.files.update? id values).map fun files => { s with files := files }
  else none

def step : Statement → Option (Shared platform)
  | .insert writer now values => s.insert writer now values
  | .hash writer => s.hash writer
  | .commit writer => s.commit writer
  | .rollback writer => some (s.rollback writer)
  | .set id values now => s.set id values now
  | .note id values => s.note id values

def InOrder : Statement → Prop
  -- no text the hash covers is changed
  | .set id values now => ∀ old, s.files.get? id = some old → ∀ field ∈ chainFields,
      fieldText platform (backupFiles.updated platform.storage (extended values (single .updatedAt (.text now))) old)
        field.1 = fieldText platform old field.1
  -- each row still follows the row it was hashed over, and no newer row of its entry is committed
  | .commit writer => ∀ row ∈ s.files.rows, s.writer row.1 = some writer →
      (previousRow (s.visible writer) (row.2 .backupId) row.1).map Prod.fst = s.follows row.1 ∧
        ∀ other ∈ s.committed, other.2 .backupId = row.2 .backupId → other.1 < row.1
  | _ => True

instance decidableInOrder : (statement : Statement) → Decidable (s.InOrder statement)
  | .set id values now =>
      match found : s.files.get? id with
      | none => isTrue fun _ held => nomatch found.symm.trans held
      | some old =>
          decidable_of_iff (∀ field ∈ chainFields,
              fieldText platform (backupFiles.updated platform.storage (extended values (single .updatedAt (.text now))) old)
                field.1 = fieldText platform old field.1)
            ⟨fun kept _ held => Option.some.inj (found.symm.trans held) ▸ kept, fun inOrder => inOrder old found⟩
  | .commit writer => inferInstanceAs (Decidable (∀ row ∈ s.files.rows, s.writer row.1 = some writer →
      (previousRow (s.visible writer) (row.2 .backupId) row.1).map Prod.fst = s.follows row.1 ∧
        ∀ other ∈ s.committed, other.2 .backupId = row.2 .backupId → other.1 < row.1))
  | .insert _ _ _ | .hash _ | .rollback _ | .note _ _ => isTrue trivial

def Over (writer : Nat) (id : Int) (previous : String) : Prop :=
  (s.follows id = none ∧ previous = "") ∨ ∃ other row, s.follows id = some other ∧ s.files.get? other = some row ∧
    (s.writer other = none ∨ s.writer other = some writer) ∧ row .rowHash = .text previous

/-- Every chain that is committed is linked, and every open row is hashed over the row it follows. -/
structure Chained : Prop where
  linked : ∀ entry, (rowChain platform).Linked (s.committed.filter fun row => entryName platform row = entry)
  unhashed : ∀ writer id, s.unhashed writer = some id →
    s.writer id = some writer ∧ ∃ row, s.files.get? id = some row ∧ row .rowHash = .null
  hashed : ∀ id row writer, s.files.get? id = some row → s.writer id = some writer → s.unhashed writer ≠ some id →
    ∃ previous, s.Over writer id previous ∧ row .rowHash = .text (rowHash platform row previous)

end Statements

section Steps

variable {s next : Shared platform}
variable {row : FileRow} {writer : Nat} {values : Values BackupFileColumn}

theorem mem_committed : row ∈ s.committed ↔ s.files.get? row.1 = some row.2 ∧ s.writer row.1 = none := by
  rw [committed, List.mem_filter, Rows.get?_eq_some_iff, decide_eq_true_eq]

theorem mem_visible :
    row ∈ s.visible writer ↔
      s.files.get? row.1 = some row.2 ∧ (s.writer row.1 = none ∨ s.writer row.1 = some writer) := by
  rw [visible, List.mem_filter, Rows.get?_eq_some_iff, decide_eq_true_eq]

/-- The stored hash of a row whose column holds a text. -/
theorem stored_of_text {word : String} (text : row.2 .rowHash = .text word) :
    (rowChain platform).stored row = word := by
  change hashText platform (row.2 .rowHash) = word
  rw [text, hashText]
  by_cases empty : word = ""
  · simp [truthy, empty]
  · simp [truthy, Platform.str, empty]

theorem Chained.committed_hashed (chained : Chained s) (member : row ∈ s.committed) : row.2 .rowHash ≠ .null := by
  intro null
  have own : row ∈ s.committed.filter fun other => entryName platform other = entryName platform row :=
    List.mem_filter.mpr ⟨member, by simp⟩
  refine (chained.linked _).stored_ne own ?_
  change hashText platform (row.2 .rowHash) = ""
  rw [null]
  rfl

theorem chained_alone (follows : Int → Option Int) : Chained (alone .empty follows : Shared platform) where
  linked _ := HashChain.linked_nil _
  unhashed _ _ opened := nomatch opened
  hashed _ _ _ found := nomatch found

/-! ### What a statement leaves alone -/

variable {id : Int} {now : String}

/-- A row stays hashed over the row it follows while that row keeps its hash and is there to be seen. -/
theorem Over.of_kept {previous : String} (taken : s.Over writer id previous) (follows : next.follows id = s.follows id)
    (kept : ∀ other row, s.files.get? other = some row → row .rowHash ≠ .null →
      s.writer other = none ∨ s.writer other = some writer →
        ∃ row', next.files.get? other = some row' ∧ row' .rowHash = row .rowHash ∧
          (next.writer other = none ∨ next.writer other = some writer)) : next.Over writer id previous := by
  rcases taken with ⟨first, empty⟩ | ⟨other, row, after, found, seen, hash⟩
  · exact Or.inl ⟨follows.trans first, empty⟩
  · obtain ⟨row', found', same, seen'⟩ := kept other row found (by rw [hash]; exact nofun) seen
    exact Or.inr ⟨other, row', follows.trans after, found', seen', same.trans hash⟩

theorem rowHash_congr {row other : BackupFileColumn → Value} (same : coveredFields platform row = coveredFields platform other)
    (previous : String) : rowHash platform row previous = rowHash platform other previous :=
  congrArg (fun fields => platform.sha256 (Json.dumps ⟨true, true⟩ (.array [.string previous, fields]))) same

/-- A statement of a transaction leaves what is committed as it was. -/
theorem Chained.linked_of_committed (chained : Chained s) (same : next.committed = s.committed) (entry : String) :
    (rowChain platform).Linked (next.committed.filter fun row => entryName platform row = entry) := by
  rw [same]
  exact chained.linked entry

/-! ### `INSERT` -/

structure Inserting (s next : Shared platform) (writer : Nat) (now : String) (values : Values BackupFileColumn) :
    Prop where
  hashed : s.unhashed writer = none
  unnamed : values .rowHash = none
  inserted : Rows.Inserted now values s.files next.files
  wrote : next.writer = Function.update s.writer s.files.next (some writer)
  opened : next.unhashed = Function.update s.unhashed writer (some s.files.next)
  follows : next.follows = s.follows

theorem inserting_of_insert (ran : s.insert writer now values = some next) : Inserting s next writer now values := by
  rw [Shared.insert] at ran
  split at ran
  · rename_i guard
    obtain ⟨⟨id, files⟩, inserted, rfl⟩ := Option.map_eq_some_iff.mp ran
    obtain ⟨rfl, spec⟩ := Rows.inserted_of_insert? inserted
    refine ⟨guard.1, ?_, spec, rfl, rfl, rfl⟩
    by_contra named
    have listed := guard.2 .rowHash (BackupFileColumn.mem_all _) named
    simp [BackupFileColumn.settable] at listed
  · cases ran

namespace Inserting

variable {writer : Nat} {now : String} {values : Values BackupFileColumn}
  (inserting : Inserting s next writer now values)

include inserting
variable {id : Int}

theorem get?_of_found {row : BackupFileColumn → Value} (found : s.files.get? id = some row) :
    next.files.get? id = some row := by
  rw [inserting.inserted.get?, if_neg (Rows.lt_next_of_get? found).ne, found]

theorem writer_of_found {row : BackupFileColumn → Value} (found : s.files.get? id = some row) :
    next.writer id = s.writer id := by
  rw [inserting.wrote, Function.update_of_ne (Rows.lt_next_of_get? found).ne]

theorem committed_eq : next.committed = s.committed := by
  have dropped : [(s.files.next, backupFiles.inserted platform.storage now values)].filter
      (fun row => next.writer row.1 = none) = [] := by
    simp [inserting.wrote]
  rw [committed, inserting.inserted.rows, List.filter_append, dropped, List.append_nil, committed]
  apply List.filter_congr
  intro row member
  simp only [inserting.writer_of_found (Rows.get?_eq_some_iff.mpr member)]

theorem chained (chained : Chained s) : Chained next := by
  refine ⟨chained.linked_of_committed inserting.committed_eq, ?_, ?_⟩
  · intro other id opened
    rw [inserting.opened] at opened
    by_cases own : other = writer
    · rw [own, Function.update_self] at opened
      obtain rfl := Option.some.inj opened
      refine ⟨by rw [inserting.wrote, own, Function.update_self], _, by rw [inserting.inserted.get?, if_pos rfl], ?_⟩
      exact backupFiles.inserted_of_null platform.storage (by rw [inserting.unnamed]; rfl) now
    · rw [Function.update_of_ne own] at opened
      obtain ⟨wrote, row, found, null⟩ := chained.unhashed other id opened
      exact ⟨(inserting.writer_of_found found).trans wrote, row, inserting.get?_of_found found, null⟩
  · intro id row other found wrote hashed
    by_cases new : id = s.files.next
    · rw [inserting.wrote, new, Function.update_self] at wrote
      obtain rfl := Option.some.inj wrote
      rw [inserting.opened, Function.update_self, new] at hashed
      exact absurd rfl hashed
    · rw [inserting.inserted.get?, if_neg new] at found
      rw [inserting.writer_of_found found] at wrote
      have earlier : s.unhashed other ≠ some id := by
        by_cases own : other = writer
        · rw [own, inserting.hashed]
          exact nofun
        · rwa [inserting.opened, Function.update_of_ne own] at hashed
      obtain ⟨previous, taken, hash⟩ := chained.hashed id row other found wrote earlier
      refine ⟨previous, Over.of_kept taken (by rw [inserting.follows]) ?_, hash⟩
      intro followed row' found' _ seen
      exact ⟨row', inserting.get?_of_found found', rfl, by rwa [inserting.writer_of_found found']⟩

end Inserting

/-! ### The row hash -/

structure Hashing (s next : Shared platform) (writer : Nat) (id : Int) (old : BackupFileColumn → Value) : Prop where
  opened : s.unhashed writer = some id
  found : s.files.get? id = some old
  got : ∃ new, (∀ other, next.files.get? other = if other = id then some new else s.files.get? other) ∧
    (∀ column, column ≠ .rowHash → new column = old column) ∧
      new .rowHash = .text (rowHash platform old
        (hashText platform (previousHash (s.visible writer) (old .backupId) id)))
  rows : ∃ new, next.files.rows = s.files.replaced id new
  wrote : next.writer = s.writer
  closed : next.unhashed = Function.update s.unhashed writer none
  follows : next.follows = Function.update s.follows id
    ((previousRow (s.visible writer) (old .backupId) id).map Prod.fst)

theorem hashing_of_hash (chained : Chained s) (ran : s.hash writer = some next) :
    ∃ id old, Hashing s next writer id old := by
  obtain ⟨id, opened, ran⟩ := Option.bind_eq_some_iff.mp ran
  obtain ⟨_, old, found, _⟩ := chained.unhashed writer id opened
  rw [found, Option.getD_some] at ran
  obtain ⟨files, updated, rfl⟩ := Option.map_eq_some_iff.mp ran
  rcases Rows.updated_of_update? updated with ⟨absent, _⟩ | ⟨row, spec⟩
  · cases absent.symm.trans found
  · obtain rfl := Option.some.inj (spec.found.symm.trans found)
    refine ⟨id, row, opened, found, ⟨_, spec.get?, ?_, ?_⟩, ⟨_, spec.rows⟩, rfl, rfl, rfl⟩
    · intro column apart
      exact backupFiles.updated_of_none platform.storage (if_neg apart) row
    · have bound := backupFiles.bind_updated platform.storage spec.binds (if_pos rfl) row
      exact (Option.some.inj ((platform.storage.bind_text _).symm.trans bound)).symm

namespace Hashing

variable {writer : Nat} {id : Int} {old : BackupFileColumn → Value} (hashing : Hashing s next writer id old)

include hashing

theorem get?_of_ne {other : Int} (apart : other ≠ id) : next.files.get? other = s.files.get? other := by
  obtain ⟨new, got, _⟩ := hashing.got
  rw [got, if_neg apart]

theorem committed_eq (wrote : s.writer id = some writer) : next.committed = s.committed := by
  obtain ⟨new, rows⟩ := hashing.rows
  rw [committed, rows, hashing.wrote, committed]
  exact Rows.filter_replaced (fun id => s.writer id = none) (by simp [wrote])

/-- The row is hashed over the newest row of its entry the transaction sees. -/
theorem taken : next.Over writer id (hashText platform (previousHash (s.visible writer) (old .backupId) id)) := by
  have follows := hashing.follows
  rw [previousHash, ← previousRow]
  cases before : previousRow (s.visible writer) (old .backupId) id with
  | none =>
    rw [before] at follows
    exact Or.inl ⟨by rw [follows, Function.update_self, Option.map_none], rfl⟩
  | some row =>
    rw [before] at follows
    rw [Option.map_some, Option.getD_some]
    have member := List.mem_of_getLast? before
    rw [List.mem_filter, decide_eq_true_eq] at member
    obtain ⟨seen, earlier, _, there⟩ := member
    obtain ⟨found, seen⟩ := mem_visible.mp seen
    obtain ⟨word, text⟩ := (text_rowHash found).resolve_left there
    refine Or.inr ⟨row.1, row.2, by rw [follows, Function.update_self, Option.map_some], ?_, ?_, ?_⟩
    · rw [hashing.get?_of_ne earlier.ne, found]
    · rwa [hashing.wrote]
    · rw [text]
      have stored : hashText platform (row.2 .rowHash) = word := stored_of_text text
      rw [text] at stored
      rw [stored]

theorem chained (chained : Chained s) : Chained next := by
  obtain ⟨wrote, row, found, null⟩ := chained.unhashed writer id hashing.opened
  obtain rfl := Option.some.inj (hashing.found.symm.trans found)
  refine ⟨chained.linked_of_committed (hashing.committed_eq wrote), ?_, ?_⟩
  · intro other id' opened
    rw [hashing.closed] at opened
    by_cases own : other = writer
    · rw [own, Function.update_self] at opened
      cases opened
    · rw [Function.update_of_ne own] at opened
      obtain ⟨wrote', row', found', null'⟩ := chained.unhashed other id' opened
      have apart : id' ≠ id := by
        rintro rfl
        exact own (Option.some.inj (wrote'.symm.trans wrote))
      exact ⟨by rw [hashing.wrote, wrote'], row', by rw [hashing.get?_of_ne apart, found'], null'⟩
  · intro id' row' other found' wrote' hashed'
    by_cases own : id' = id
    · subst own
      obtain ⟨new, got, same, hash⟩ := hashing.got
      rw [got, if_pos rfl] at found'
      obtain rfl := Option.some.inj found'
      rw [hashing.wrote, wrote] at wrote'
      obtain rfl := Option.some.inj wrote'
      have covered : coveredFields platform new = coveredFields platform old := by
        rw [coveredFields_eq_iff]
        intro field member
        have apart : field.1 ≠ .rowHash := by
          revert member
          revert field
          decide
        rw [fieldText, fieldText, same field.1 apart]
      exact ⟨_, hashing.taken, by rw [hash, rowHash_congr covered]⟩
    · rw [hashing.get?_of_ne own] at found'
      rw [hashing.wrote] at wrote'
      have earlier : s.unhashed other ≠ some id' := by
        intro opened
        by_cases same : other = writer
        · rw [same, hashing.opened] at opened
          exact own (Option.some.inj opened).symm
        · rw [hashing.closed, Function.update_of_ne same] at hashed'
          exact hashed' opened
      obtain ⟨previous, taken, hash⟩ := chained.hashed id' row' other found' wrote' earlier
      refine ⟨previous, Over.of_kept taken (by rw [hashing.follows, Function.update_of_ne own]) ?_, hash⟩
      intro followed other' found' there seen
      have apart : followed ≠ id := by
        rintro rfl
        rw [hashing.found] at found'
        obtain rfl := Option.some.inj found'
        exact there null
      exact ⟨other', by rw [hashing.get?_of_ne apart, found'], rfl, by rwa [hashing.wrote]⟩

end Hashing

/-! ### The end of a transaction -/

theorem rollback_unhashed (writer : Nat) :
    (s.rollback writer).unhashed = Function.update s.unhashed writer none := rfl

theorem rollback_chained (chained : Chained s) (writer : Nat) : Chained (s.rollback writer) := by
  have kept {id : Int} {row : BackupFileColumn → Value} (found : s.files.get? id = some row)
      (other : s.writer id ≠ some writer) : (s.rollback writer).files.get? id = some row := by
    rw [rollback, Rows.get?_without, if_neg (by simpa using other), found]
  have same : (s.rollback writer).committed = s.committed := by
    rw [committed, committed, rollback, Rows.without, List.filter_filter]
    apply List.filter_congr
    intro row _
    cases s.writer row.1 with
    | none => simp
    | some other => simp
  refine ⟨chained.linked_of_committed same, ?_, ?_⟩
  · intro other id opened
    have apart : other ≠ writer := by
      rintro rfl
      rw [rollback_unhashed, Function.update_self] at opened
      cases opened
    rw [rollback_unhashed, Function.update_of_ne apart] at opened
    obtain ⟨wrote, row, found, null⟩ := chained.unhashed other id opened
    refine ⟨wrote, row, kept found ?_, null⟩
    rw [wrote]
    exact fun equal => apart (Option.some.inj equal)
  · intro id row other found wrote hashed
    rw [rollback, Rows.get?_without] at found
    split at found
    · cases found
    · rename_i there
      have apart : other ≠ writer := by
        rintro rfl
        exact there (decide_eq_true wrote)
      rw [rollback_unhashed, Function.update_of_ne apart] at hashed
      obtain ⟨previous, taken, hash⟩ := chained.hashed id row other found wrote hashed
      refine ⟨previous, taken.of_kept rfl ?_, hash⟩
      intro followed row' found' _ seen
      refine ⟨row', kept found' ?_, rfl, seen⟩
      rcases seen with committed | own
      · rw [committed]
        rintro ⟨⟩
      · rw [own]
        exact fun equal => apart (Option.some.inj equal)

section Commit

variable {writer : Nat} (chained : Chained s) (hashed : s.unhashed writer = none)

include chained hashed

theorem visible_hashed (seen : row ∈ s.visible writer) : row.2 .rowHash ≠ .null := by
  obtain ⟨found, committed | own⟩ := mem_visible.mp seen
  · exact chained.committed_hashed (mem_committed.mpr ⟨found, committed⟩)
  · obtain ⟨_, _, hash⟩ := chained.hashed row.1 row.2 writer found own (by rw [hashed]; exact nofun)
    rw [hash]
    exact nofun

/-- What a transaction sees of an entry before a row of it. -/
theorem previousRow_eq {entry : String} (seen : row ∈ s.visible writer) (own : entryName platform row = entry) :
    previousRow (s.visible writer) (row.2 .backupId) row.1 =
      (((s.visible writer).filter fun other => entryName platform other = entry).filter
        fun other => other.1 < row.1).getLast? := by
  rw [previousRow, List.filter_filter]
  refine congrArg List.getLast? (List.filter_congr ?_)
  intro other member
  have there := visible_hashed chained hashed member
  have equal : (other.2 .backupId).equal (row.2 .backupId) = some true ↔ entryName platform other = entry := by
    rw [← own]
    exact equal_backupId_iff (text_backupId (mem_visible.mp member).1) (text_backupId (mem_visible.mp seen).1)
  simp only [equal, there, ne_eq, not_false_eq_true, and_true, Bool.decide_and]

theorem linked_visible (inOrder : s.InOrder (.commit writer)) (entry : String) :
    (rowChain platform).Linked ((s.visible writer).filter fun row => entryName platform row = entry) := by
  intro front row back split
  have sorted (rows : List FileRow) (sub : rows.Sublist s.files.rows) :
      rows.Pairwise fun first second => first.1 < second.1 := s.files.rows_pairwise.sublist sub
  have before : front = ((s.visible writer).filter fun row => entryName platform row = entry).filter
      fun other => other.1 < row.1 := by
    rw [split]
    exact Selection.eq_filter_lt_of_split (split ▸ sorted _ (List.filter_sublist.trans List.filter_sublist))
  have member : row ∈ (s.visible writer).filter fun row => entryName platform row = entry := by simp [split]
  obtain ⟨seen, own⟩ := List.mem_filter.mp member
  have own := of_decide_eq_true own
  obtain ⟨found, committed | wrote⟩ := mem_visible.mp seen
  · have held : row ∈ s.committed.filter fun row => entryName platform row = entry :=
      List.mem_filter.mpr ⟨mem_committed.mpr ⟨found, committed⟩, decide_eq_true own⟩
    obtain ⟨front', back', split'⟩ := List.append_of_mem held
    have before' : front' = (s.committed.filter fun row => entryName platform row = entry).filter
        fun other => other.1 < row.1 := by
      rw [split']
      exact Selection.eq_filter_lt_of_split (split' ▸ sorted _ (List.filter_sublist.trans List.filter_sublist))
    have same : front = front' := by
      rw [before, before', visible, Shared.committed, List.filter_filter, List.filter_filter, List.filter_filter,
        List.filter_filter]
      apply List.filter_congr
      intro other present
      by_cases earlier : other.1 < row.1 ∧ entryName platform other = entry
      · have apart : s.writer other.1 ≠ some writer := by
          intro wrote
          have newer := (inOrder other present wrote).2 row (mem_committed.mpr ⟨found, committed⟩)
          have text := text_backupId (Rows.get?_eq_some_iff.mpr present)
          have entries := earlier.2.trans own.symm
          have equal := (equal_backupId_iff text (text_backupId found)).mpr entries
          obtain ⟨word, text⟩ := text
          obtain ⟨word', text'⟩ := text_backupId found
          rw [text, text', Value.equal, Option.some.injEq, decide_eq_true_eq] at equal
          exact (newer (by rw [text, text', equal])).asymm earlier.1
        simp [apart]
      · rcases not_and_or.mp earlier with late | other
        · simp [late]
        · simp [other]
    rw [same]
    exact chained.linked entry front' row back' split'
  · obtain ⟨previous, taken, hash⟩ := chained.hashed row.1 row.2 writer found wrote (by rw [hashed]; rintro ⟨⟩)
    have follows := (inOrder row (Rows.get?_eq_some_iff.mp found) wrote).1
    rw [previousRow_eq chained hashed seen own, ← before] at follows
    have newest : (rowChain platform).head front = previous := by
      rw [HashChain.head]
      rcases taken with ⟨first, rfl⟩ | ⟨other, row', after, found', _, hash'⟩
      · rw [first, Option.map_eq_none_iff] at follows
        rw [follows]
        rfl
      · rw [after] at follows
        obtain ⟨last, latest, rfl⟩ := Option.map_eq_some_iff.mp follows
        have present : last ∈ front := List.mem_of_getLast? latest
        rw [before] at present
        have foundLast := (mem_visible.mp (List.mem_filter.mp (List.mem_filter.mp present).1).1).1
        rw [foundLast] at found'
        obtain rfl := Option.some.inj found'
        rw [latest, Option.map_some, Option.getD_some, stored_of_text hash']
    rw [newest, stored_of_text hash]
    rfl

end Commit

/-- A commit shows the rows its transaction saw. -/
theorem committed_of_commit (ran : s.commit writer = some next) :
    s.unhashed writer = none ∧ next.committed = s.visible writer := by
  rw [commit] at ran
  split at ran
  · rename_i hashed
    cases ran
    refine ⟨hashed, ?_⟩
    rw [committed, visible]
    apply List.filter_congr
    intro row _
    rw [decide_eq_decide]
    dsimp only
    split
    · rename_i own
      simp [own]
    · rename_i apart
      simp [apart]
  · cases ran

theorem commit_chained (chained : Chained s) (inOrder : s.InOrder (.commit writer)) (ran : s.commit writer = some next) :
    Chained next := by
  have committed := (committed_of_commit ran).2
  rw [commit] at ran
  split at ran
  · rename_i hashed
    have wrote (id : Int) : next.writer id = if s.writer id = some writer then none else s.writer id := by
      cases ran
      rfl
    have files : next.files = s.files := by
      cases ran
      rfl
    have others : next.unhashed = s.unhashed ∧ next.follows = s.follows := by
      cases ran
      exact ⟨rfl, rfl⟩
    clear ran
    have still {other : Nat} {id : Int} (own : next.writer id = some other) :
        other ≠ writer ∧ s.writer id = some other := by
      rw [wrote] at own
      split at own
      · cases own
      · rename_i apart
        refine ⟨?_, own⟩
        rintro rfl
        exact apart own
    constructor
    · intro entry
      rw [committed]
      exact linked_visible chained hashed inOrder entry
    · intro other id opened
      rw [others.1] at opened
      obtain ⟨own, row, found, null⟩ := chained.unhashed other id opened
      refine ⟨?_, row, by rw [files, found], null⟩
      rw [wrote, if_neg ?_, own]
      rintro same
      rw [own] at same
      rw [Option.some.inj same, hashed] at opened
      cases opened
    · intro id row other found own opened
      rw [files] at found
      rw [others.1] at opened
      obtain ⟨apart, own⟩ := still own
      obtain ⟨previous, taken, hash⟩ := chained.hashed id row other found own opened
      refine ⟨previous, taken.of_kept (by rw [others.2]) ?_, hash⟩
      intro followed row' found' _ seen
      refine ⟨row', by rw [files, found'], rfl, ?_⟩
      rw [wrote]
      split
      · exact Or.inl rfl
      · exact seen
  · cases ran

/-! ### Statements of other calls -/

/-- A statement that changes neither a hash nor a text the hashes cover. -/
theorem update_chained (chained : Chained s) {files : Rows platform.storage backupFiles} (open' : s.writer id = none)
    (unnamed : values .rowHash = none) (kept : ∀ old, s.files.get? id = some old → ∀ field ∈ chainFields,
      fieldText platform (backupFiles.updated platform.storage values old) field.1 = fieldText platform old field.1)
    (ran : s.files.update? id values = some files) : Chained { s with files := files } := by
  rcases Rows.updated_of_update? ran with ⟨_, rfl⟩ | ⟨old, spec⟩
  · exact chained
  have covered := kept old spec.found
  have hash : backupFiles.updated platform.storage values old .rowHash = old .rowHash :=
    backupFiles.updated_of_none platform.storage unnamed old
  have got := spec.get?
  have rows := spec.rows
  have found : files.get? id = some (backupFiles.updated platform.storage values old) := by rw [got, if_pos rfl]
  generalize backupFiles.updated platform.storage values old = new at covered hash got rows found
  have apart {other : Int} {writer : Nat} (wrote : s.writer other = some writer) : other ≠ id := by
    rintro rfl
    rw [open'] at wrote
    cases wrote
  constructor
  · intro entry
    refine (chained.linked entry).of_links ?_
    rw [committed, committed, rows, Rows.replaced, List.filter_filter, List.filter_filter]
    symm
    apply Selection.map_filter_map
    intro row member
    by_cases own : row.1 = id
    · have same : row.2 = old := by
        have held := Rows.get?_eq_some_iff.mpr member
        rw [own, spec.found] at held
        exact (Option.some.inj held).symm
      have entries : entryName platform (id, new) = entryName platform row := by
        refine entryName_eq_of_fieldText (text_backupId found) ?_ ?_
        · rw [same]
          exact text_backupId spec.found
        · rw [same]
          exact covered (.backupId, "backup_id") (by simp [chainFields])
      rw [if_pos own, entries, own]
      refine ⟨rfl, Prod.ext ?_ ?_⟩
      · change coveredFields platform new = coveredFields platform row.2
        rw [same]
        exact coveredFields_eq_iff.mpr covered
      · change hashText platform (new .rowHash) = hashText platform (row.2 .rowHash)
        rw [same, hash]
    · rw [if_neg own]
      exact ⟨rfl, rfl⟩
  · intro writer other opened
    obtain ⟨wrote, row, found, null⟩ := chained.unhashed writer other opened
    exact ⟨wrote, row, by rw [got, if_neg (apart wrote), found], null⟩
  · intro other row writer found wrote hashed
    rw [got, if_neg (apart wrote)] at found
    obtain ⟨previous, taken, own⟩ := chained.hashed other row writer found wrote hashed
    refine ⟨previous, taken.of_kept rfl ?_, own⟩
    intro followed row' found' _ seen
    by_cases same : followed = id
    · rw [same, spec.found] at found'
      obtain rfl := Option.some.inj found'
      exact ⟨new, by rw [got, if_pos same], hash, seen⟩
    · exact ⟨row', by rw [got, if_neg same, found'], rfl, seen⟩

theorem extended_rowHash
    (settable : ∀ column ∈ BackupFileColumn.all, values column ≠ none → column ∈ BackupFileColumn.settable) :
    extended values (single .updatedAt (.text now)) .rowHash = none := by
  have unnamed : values .rowHash = none := by
    by_contra named
    have listed := settable .rowHash (BackupFileColumn.mem_all _) named
    simp [BackupFileColumn.settable] at listed
  simp [extended, single, unnamed]

theorem step_chained (statement : Statement) (ran : s.step statement = some next) (inOrder : s.InOrder statement)
    (chained : Chained s) : Chained next := by
  cases statement with
  | insert writer now values => exact (inserting_of_insert ran).chained chained
  | hash writer =>
    obtain ⟨id, old, hashing⟩ := hashing_of_hash chained ran
    exact hashing.chained chained
  | commit writer => exact commit_chained chained inOrder ran
  | rollback writer =>
    cases ran
    exact rollback_chained chained writer
  | set id values now =>
    rw [step, set] at ran
    split at ran
    · rename_i guard
      obtain ⟨files, updated, rfl⟩ := Option.map_eq_some_iff.mp ran
      exact update_chained chained guard.1 (extended_rowHash guard.2.2) inOrder updated
    · cases ran
  | note id values =>
    rw [step, note] at ran
    split at ran
    · rename_i guard
      obtain ⟨files, updated, rfl⟩ := Option.map_eq_some_iff.mp ran
      have unnamed {column : BackupFileColumn} (other : column ∉ notedColumns) : values column = none := by
        by_contra named
        exact other (guard.2 column (BackupFileColumn.mem_all _) named)
      refine update_chained chained guard.1 (unnamed (by decide)) ?_ updated
      intro old _ field member
      have other : field.1 ∉ notedColumns := by
        revert member
        revert field
        decide
      rw [fieldText, fieldText, backupFiles.updated_of_none platform.storage (unnamed other)]
    · cases ran

end Steps

end Shared

/-! ## Runs -/

/-- An empty table. -/
def Shared.start (platform : Platform) : Shared platform := .alone .empty fun _ => none

theorem isHashed_of_stored {row : FileRow} (stored : (rowChain platform).stored row ≠ "") : isHashed row = true := by
  have text : hashText platform (row.2 .rowHash) ≠ "" := stored
  rw [hashText] at text
  split at text
  · assumption
  · exact absurd rfl text

theorem clean_of_linked {rows : List FileRow} (linked : (rowChain platform).Linked rows) : Clean platform rows := by
  have hashed (row : FileRow) (member : row ∈ rows) : isHashed row = true :=
    isHashed_of_stored (linked.stored_ne member)
  have all : (rows.filter fun row => isHashed row) = rows := List.filter_eq_self.mpr hashed
  have none : (rows.filter fun row => isHashed row = false) = [] := by
    rw [List.filter_eq_nil_iff]
    intro row member
    simp [hashed row member]
  constructor
  · rw [none, all, List.nil_append]
  · rw [all]
    exact linked

variable {s : Shared platform}

theorem chained_of_run {statements : List Statement}
    (ran : exec Shared.step (Shared.start platform) statements = some s)
    (inOrder : Every Shared.step (fun before statement _ => before.InOrder statement) (Shared.start platform) statements) :
    s.Chained :=
  exec_invariant_of_every
    (fun _ statement _ ran inOrder chained => Shared.step_chained statement ran inOrder chained) inOrder
      (Shared.chained_alone _) ran

theorem unbroken_of_chained (chained : s.Chained) (backupId : String) :
    (verifyRowChain platform s.committed backupId).broken = 0 :=
  broken_eq_zero_of_clean ((textRows s.files).filter _) fun entry => clean_of_linked (chained.linked entry)

/--
In every run of statements of any number of transactions, from an empty table,
whose every `set_backup_file` keeps the texts the hash covers and whose every
commit is of rows that still follow the row they were hashed over and are newer
than every committed row of their entry: no call of `verify_row_chain` reports a
break of what is committed.
-/
theorem row_chain_unbroken (platform : Platform) (statements : List Statement) (s : Shared platform)
    (ran : exec Shared.step (Shared.start platform) statements = some s)
    (inOrder : Every Shared.step (fun before statement _ => before.InOrder statement) (Shared.start platform) statements)
    (backupId : String) : (verifyRowChain platform s.committed backupId).broken = 0 := by
  exact unbroken_of_chained (chained_of_run ran inOrder) backupId

/-! ### Out of order -/

theorem linked_of_unbroken (unbroken : (verifyRowChain platform s.committed "").broken = 0) (entry : String)
    (hashed : ∀ row ∈ s.committed, isHashed row = true) :
    (rowChain platform).Linked (s.committed.filter fun row => entryName platform row = entry) := by
  have clean := (broken_eq_zero_iff_clean ((textRows s.files).filter _)).mp unbroken entry
  have all : ((s.committed.filter fun row => entryName platform row = entry).filter fun row => isHashed row) =
      s.committed.filter fun row => entryName platform row = entry :=
    List.filter_eq_self.mpr fun row member => hashed row (List.mem_filter.mp member).1
  rw [← all]
  exact clean.linked

section OutOfOrder

variable {s next : Shared platform} (injective : DigestInjective platform) (chained : s.Chained)

include chained
variable {row : FileRow} {writer : Nat}

theorem committed_isHashed (member : row ∈ s.committed) : isHashed row = true := by
  have own : row ∈ s.committed.filter fun other => entryName platform other = entryName platform row :=
    List.mem_filter.mpr ⟨member, by simp⟩
  exact isHashed_of_stored ((chained.linked _).stored_ne own)

include injective

/-- A change of a text the hash covers breaks the chain. -/
theorem set_breaks {id : Int} {values : Values BackupFileColumn} {now : String}
    (ran : s.step (.set id values now) = some next) (changed : ¬s.InOrder (.set id values now)) :
    (verifyRowChain platform next.committed "").broken ≠ 0 := by
  intro unbroken
  refine changed ?_
  intro old found field member
  rw [Shared.step, Shared.set] at ran
  split at ran
  · rename_i guard
    obtain ⟨files, updated, rfl⟩ := Option.map_eq_some_iff.mp ran
    rcases Rows.updated_of_update? updated with ⟨absent, _⟩ | ⟨other, spec⟩
    · cases absent.symm.trans found
    obtain rfl := Option.some.inj (spec.found.symm.trans found)
    have hash : backupFiles.updated platform.storage (extended values (single .updatedAt (.text now))) other .rowHash =
        other .rowHash := backupFiles.updated_of_none platform.storage (Shared.extended_rowHash guard.2.2) other
    have got := spec.get?
    obtain ⟨new, isNew⟩ : ∃ new, new = backupFiles.updated platform.storage
      (extended values (single .updatedAt (.text now))) other := ⟨_, rfl⟩
    rw [← isNew] at hash got ⊢
    have before : (id, other) ∈ s.committed := Shared.mem_committed.mpr ⟨found, guard.1⟩
    have after : (id, new) ∈ Shared.committed { s with files := files } :=
      Shared.mem_committed.mpr ⟨by rw [got, if_pos rfl], guard.1⟩
    have hashed (row : FileRow) (there : row ∈ Shared.committed { s with files := files }) : isHashed row = true := by
      obtain ⟨foundRow, open'⟩ := Shared.mem_committed.mp there
      rw [got] at foundRow
      split at foundRow
      · rw [isHashed, ← Option.some.inj foundRow, hash]
        exact committed_isHashed chained before
      · exact committed_isHashed chained (Shared.mem_committed.mpr ⟨foundRow, open'⟩)
    have own : (id, other) ∈ s.committed.filter fun row => entryName platform row = entryName platform (id, other) :=
      List.mem_filter.mpr ⟨before, by simp⟩
    obtain ⟨front, back, split⟩ := List.append_of_mem own
    have stored := chained.linked _ front _ back split
    have linked := linked_of_unbroken unbroken (entryName platform (id, new)) hashed
    have own' : (id, new) ∈ (Shared.committed { s with files := files }).filter
        fun row => entryName platform row = entryName platform (id, new) := List.mem_filter.mpr ⟨after, by simp⟩
    obtain ⟨front', back', split'⟩ := List.append_of_mem own'
    rw [split'] at linked
    have same : (rowChain platform).stored (id, new) = (rowChain platform).stored (id, other) :=
      congrArg (hashText platform) hash
    have covered := (linked.digest_eq (rowChain_injective injective) (same.trans stored)).1
    exact coveredFields_eq_iff.mp covered field member
  · cases ran

omit injective in
theorem visible_isHashed (hashed : s.unhashed writer = none) (seen : row ∈ s.visible writer) : isHashed row = true := by
  obtain ⟨found, committed | own⟩ := Shared.mem_visible.mp seen
  · exact committed_isHashed chained (Shared.mem_committed.mpr ⟨found, committed⟩)
  · obtain ⟨previous, _, hash⟩ := chained.hashed row.1 row.2 writer found own (by rw [hashed]; exact nofun)
    have stored : (rowChain platform).stored row ≠ "" := by
      rw [Shared.stored_of_text hash]
      exact platform.sha256_ne _
    exact isHashed_of_stored stored

omit injective chained in
theorem mem_own (seen : row ∈ s.visible writer) :
    row ∈ (s.visible writer).filter fun other => entryName platform other = entryName platform row :=
  List.mem_filter.mpr ⟨seen, by simp⟩

omit injective chained in
/-- What comes before a row among the rows of its entry is what is older. -/
theorem eq_older {keep : FileRow → Bool} {entry : String} {front back : List FileRow}
    (split : ((s.files.rows.filter keep).filter fun other => entryName platform other = entry) = front ++ row :: back) :
    front = ((s.files.rows.filter keep).filter fun other => entryName platform other = entry).filter
      fun other => other.1 < row.1 := by
  have sorted := s.files.rows_pairwise.sublist
    (List.filter_sublist.trans List.filter_sublist :
      ((s.files.rows.filter keep).filter fun other => entryName platform other = entry).Sublist s.files.rows)
  rw [split] at sorted ⊢
  exact Selection.eq_filter_lt_of_split sorted

section Visible

variable {writer : Nat} (hashed : s.unhashed writer = none)
  (linked : ∀ entry, (rowChain platform).Linked
    ((s.visible writer).filter fun row => entryName platform row = entry))

include hashed linked

/-- If the chains come out linked, each row still follows the row it was hashed over. -/
theorem follows_of_linked (found : s.files.get? row.1 = some row.2) (wrote : s.writer row.1 = some writer) :
    (previousRow (s.visible writer) (row.2 .backupId) row.1).map Prod.fst = s.follows row.1 := by
  have tells := rowChain_injective injective
  have seen : row ∈ s.visible writer := Shared.mem_visible.mpr ⟨found, Or.inr wrote⟩
  obtain ⟨front, back, split⟩ := List.append_of_mem (mem_own seen)
  have whole := linked (entryName platform row)
  rw [split] at whole
  obtain ⟨previous, taken, hash⟩ := chained.hashed row.1 row.2 writer found wrote (by rw [hashed]; exact nofun)
  have head : (rowChain platform).head front = previous :=
    (whole.digest_eq tells (Shared.stored_of_text hash)).2
  have before := eq_older split
  rw [Shared.previousRow_eq chained hashed seen rfl, Shared.visible, ← before]
  rcases taken with ⟨first, rfl⟩ | ⟨other, row', after, found', seen', hash'⟩
  · rcases List.eq_nil_or_concat front with rfl | ⟨rest, last, rfl⟩
    · exact first.symm
    · rw [List.concat_eq_append, HashChain.head_concat] at head
      exact absurd head (whole.of_append.stored_ne (by simp))
  · have seenOther : (other, row') ∈ s.visible writer := Shared.mem_visible.mpr ⟨found', seen'⟩
    have stored : (rowChain platform).stored (other, row') = previous := Shared.stored_of_text hash'
    have own : (other, row') ∈ (s.visible writer).filter fun row =>
        entryName platform row = entryName platform (other, row') := mem_own seenOther
    rcases List.eq_nil_or_concat front with rfl | ⟨rest, last, rfl⟩
    · have empty : (rowChain platform).stored (other, row') = "" := stored.trans head.symm
      exact absurd empty ((linked _).stored_ne (mem_own seenOther))
    · rw [List.concat_eq_append, HashChain.head_concat] at head
      have same := head.trans stored.symm
      obtain ⟨front', back', split'⟩ := List.append_of_mem own
      have linkedOther := linked (entryName platform (other, row'))
      rw [split'] at linkedOther
      have prefixLinked : (rowChain platform).Linked (rest ++ last :: (row :: back)) := by simpa using whole
      have covered := (prefixLinked.digest_eq tells (same.trans (linkedOther _ _ _ rfl))).1
      have lastMember : last ∈ (s.visible writer).filter fun other =>
          entryName platform other = entryName platform row := by simp [split]
      obtain ⟨seenLast, lastOwn⟩ := List.mem_filter.mp lastMember
      have entries : entryName platform last = entryName platform (other, row') :=
        entryName_eq_of_fieldText (text_backupId (Shared.mem_visible.mp seenLast).1) (text_backupId found')
          (coveredFields_eq_iff.mp covered (.backupId, "backup_id") (by simp [chainFields]))
      have member : (other, row') ∈ (s.visible writer).filter fun other =>
          entryName platform other = entryName platform row :=
        List.mem_filter.mpr ⟨seenOther, by rw [← entries]; exact lastOwn⟩
      obtain rfl := (linked _).eq_of_stored tells lastMember member same
      rw [List.concat_eq_append, List.getLast?_concat, Option.map_some, after]

omit hashed in
/-- If the chains come out linked, no newer row of the entry was committed before. -/
theorem newest_of_linked {other : FileRow} (found : s.files.get? row.1 = some row.2)
    (wrote : s.writer row.1 = some writer) (held : other ∈ s.committed) (entry : other.2 .backupId = row.2 .backupId) :
    other.1 < row.1 := by
  have tells := rowChain_injective injective
  obtain ⟨foundOther, open'⟩ := Shared.mem_committed.mp held
  have seen : row ∈ s.visible writer := Shared.mem_visible.mpr ⟨found, Or.inr wrote⟩
  have seenOther : other ∈ s.visible writer := Shared.mem_visible.mpr ⟨foundOther, Or.inl open'⟩
  have entries : entryName platform row = entryName platform other := by rw [entryName, entryName, entry]
  by_contra late
  have apart : row.1 ≠ other.1 := by
    intro same
    rw [same, open'] at wrote
    cases wrote
  have earlier : row.1 < other.1 := lt_of_le_of_ne (not_lt.mp late) apart
  have ownSeen : other ∈ (s.visible writer).filter fun row => entryName platform row = entryName platform other :=
    mem_own seenOther
  obtain ⟨front, back, split⟩ := List.append_of_mem ownSeen
  have whole := linked (entryName platform other)
  rw [split] at whole
  have own : other ∈ s.committed.filter fun row => entryName platform row = entryName platform other :=
    List.mem_filter.mpr ⟨held, by simp⟩
  obtain ⟨front', back', split'⟩ := List.append_of_mem own
  have before := chained.linked (entryName platform other)
  rw [split'] at before
  have heads := (whole.digest_eq tells (before _ _ _ rfl)).2
  have links := HashChain.links_eq_of_head_eq tells whole.of_append before.of_append heads
  have lengths : front.length = front'.length := by simpa using congrArg List.length links
  have older := eq_older split
  have older' := eq_older split'
  have inside : front'.Sublist front := by
    rw [older, older']
    refine ((List.monotone_filter_right _ ?_).filter _).filter _
    intro row committed
    simpa using Or.inl (of_decide_eq_true committed)
  have member : row ∈ front := by
    rw [older]
    exact List.mem_filter.mpr ⟨List.mem_filter.mpr ⟨seen, by simp [entries]⟩, decide_eq_true earlier⟩
  rw [← inside.eq_of_length lengths.symm, older'] at member
  have committed := (Shared.mem_committed.mp (List.mem_filter.mp (List.mem_filter.mp member).1).1).2
  rw [wrote] at committed
  cases committed

end Visible

theorem commit_breaks (ran : s.step (.commit writer) = some next) (outOfOrder : ¬s.InOrder (.commit writer)) :
    (verifyRowChain platform next.committed "").broken ≠ 0 := by
  intro unbroken
  refine outOfOrder ?_
  obtain ⟨hashed, committed⟩ := Shared.committed_of_commit ran
  have linked (entry : String) :
      (rowChain platform).Linked ((s.visible writer).filter fun row => entryName platform row = entry) := by
    rw [← committed]
    refine linked_of_unbroken unbroken entry ?_
    rw [committed]
    exact fun row seen => visible_isHashed chained hashed seen
  intro row present wrote
  have found := Rows.get?_eq_some_iff.mpr present
  exact ⟨follows_of_linked injective chained hashed linked found wrote,
    fun other held entry => newest_of_linked injective chained linked found wrote held entry⟩

end OutOfOrder

/-! ## The calls are runs -/

section Calls

variable {clock : Clock} {seen catalog after : Catalog platform}

/-- One transaction is open, and it has nothing to hash. -/
structure Solo (s : Shared platform) : Prop where
  writer : ∀ id, s.writer id = none ∨ s.writer id = some 0
  hashed : s.unhashed = fun _ => none

variable {s : Shared platform}

theorem Solo.visible_eq (writer : ∀ id, s.writer id = none ∨ s.writer id = some 0) : s.visible 0 = s.files.rows := by
  rw [Shared.visible, List.filter_eq_self]
  intro row _
  exact decide_eq_true (writer row.1)

theorem insertChained_run (solo : Solo s) {values : Values BackupFileColumn}
    (settable : ∀ column, values column ≠ none → column ∈ BackupFileColumn.settable)
    {answer : Int × Rows platform.storage backupFiles} (ok : insertChained clock values s.files = .ok answer) :
    ∃ next, exec Shared.step s [.insert 0 clock.stored values, .hash 0] = some next ∧ Solo next ∧
      next.files = answer.2 := by
  rw [insertChained] at ok
  obtain ⟨⟨id, inserted⟩, insertOk, ok⟩ := bind_eq_ok ok
  obtain ⟨files, hashOk, ok⟩ := bind_eq_ok ok
  cases ok
  have ran := (insert_ok insertOk).1
  obtain ⟨rfl, _⟩ := Rows.inserted_of_insert? ran
  obtain ⟨middle, first, filesMiddle, writerMiddle, openedMiddle⟩ : ∃ middle,
      s.step (.insert 0 clock.stored values) = some middle ∧ middle.files = inserted ∧
        middle.writer = Function.update s.writer s.files.next (some 0) ∧
          middle.unhashed = Function.update s.unhashed 0 (some s.files.next) := by
    refine ⟨⟨inserted, Function.update s.writer s.files.next (some 0),
      Function.update s.unhashed 0 (some s.files.next), s.follows⟩, ?_, rfl, rfl, rfl⟩
    rw [Shared.step, Shared.insert, if_pos ⟨by rw [solo.hashed], fun column _ => settable column⟩, ran]
    rfl
  have writer (other : Int) : middle.writer other = none ∨ middle.writer other = some 0 := by
    rw [writerMiddle]
    by_cases same : other = s.files.next
    · rw [same, Function.update_self]
      exact Or.inr rfl
    · rw [Function.update_of_ne same]
      exact solo.writer other
  obtain ⟨next, second, filesNext, writerNext, openedNext⟩ : ∃ next, middle.step (.hash 0) = some next ∧
      next.files = files ∧ next.writer = middle.writer ∧
        next.unhashed = Function.update middle.unhashed 0 none := by
    have hashRan := execute_ok hashOk
    rw [Rows.write?, ← filesMiddle] at hashRan
    refine ⟨⟨files, middle.writer, Function.update middle.unhashed 0 none, Function.update middle.follows s.files.next
      ((previousRow middle.files.rows (((middle.files.get? s.files.next).getD fun _ => .null) .backupId)
        s.files.next).map Prod.fst)⟩, ?_, rfl, rfl, rfl⟩
    have opened : middle.unhashed 0 = some s.files.next := by rw [openedMiddle, Function.update_self]
    rw [Shared.step, Shared.hash, opened, Option.bind_some, Solo.visible_eq writer]
    dsimp only
    rw [hashRan]
    rfl
  refine ⟨next, ?_, ⟨fun other => by rw [writerNext]; exact writer other, ?_⟩, filesNext⟩
  · exact exec_cons_eq_some.mpr ⟨middle, first, exec_cons_eq_some.mpr ⟨next, second, rfl⟩⟩
  · rw [openedNext, openedMiddle, Function.update_idem, solo.hashed]
    funext other
    by_cases own : other = 0
    · rw [own, Function.update_self]
    · rw [Function.update_of_ne own]

/-- A statement of one writer, which takes none of them back; a `set` and a `note` are on committed rows. -/
def Statement.OfWriter (writer : Nat) : Statement → Prop
  | .insert own _ _ => own = writer
  | .hash own => own = writer
  | .commit own => own = writer
  | .rollback _ => False
  | .set _ _ _ => True
  | .note _ _ => True

theorem ofWriter_insertChained (now : String) (values : Values BackupFileColumn) :
    ∀ statement ∈ [.insert 0 now values, .hash 0], Statement.OfWriter 0 statement := by
  intro statement member
  rcases List.mem_cons.mp member with rfl | hashed
  · rfl
  · rw [List.mem_singleton.mp hashed]
    rfl

variable {last : Rows platform.storage backupFiles}

theorem insertFiles_run (solo : Solo s) {runId : Int} {items : List (Values BackupFileColumn)}
    (settable : ∀ item ∈ items, ∀ column, item column ≠ none → column ∈ BackupFileColumn.settable)
    (ok : insertFiles clock runId items s.files = .ok last) :
    ∃ statements next, (∀ statement ∈ statements, statement.OfWriter 0) ∧
      exec Shared.step s statements = some next ∧ Solo next ∧ next.files = last := by
  induction items generalizing s with
  | nil =>
    cases ok
    exact ⟨[], s, List.forall_mem_nil _, rfl, solo, rfl⟩
  | cons item rest ih =>
    rw [insertFiles] at ok
    obtain ⟨⟨id, files⟩, chained, ok⟩ := bind_eq_ok ok
    have named (column : BackupFileColumn) (given : linked runId item s.files column ≠ none) :
        column ∈ BackupFileColumn.settable := by
      by_cases link : column = .backupRunId ∨ column = .chainParentFileId
      · rcases link with rfl | rfl <;> decide
      · obtain ⟨first, second⟩ := not_or.mp link
        rw [linked_same runId item s.files column first second] at given
        exact settable item List.mem_cons_self column given
    obtain ⟨middle, ran, soloMiddle, rfl⟩ := insertChained_run solo named chained
    obtain ⟨statements, next, own, later, soloNext, same⟩ :=
      ih soloMiddle (fun other member => settable other (List.mem_cons_of_mem _ member)) ok
    refine ⟨[.insert 0 clock.stored (linked runId item s.files), .hash 0] ++ statements, next,
      List.forall_mem_append.mpr ⟨ofWriter_insertChained _ _, own⟩, ?_, soloNext, same⟩
    rw [exec_append, ran, Option.bind_some, later]

theorem commit_run (solo : Solo s) : exec Shared.step s [.commit 0] = some (.alone s.files s.follows) := by
  have writer : (fun id => if s.writer id = some 0 then none else s.writer id) = fun _ => none := by
    funext id
    rcases solo.writer id with none | own
    · rw [if_neg (by rw [none]; exact nofun), none]
    · rw [if_pos own]
  refine exec_cons_eq_some.mpr ⟨_, ?_, rfl⟩
  rw [Shared.step, Shared.commit, if_pos (by rw [solo.hashed]), writer, Shared.alone, solo.hashed]

theorem solo_alone (files : Rows platform.storage backupFiles) (follows : Int → Option Int) :
    Solo (Shared.alone files follows) := ⟨fun _ => Or.inl rfl, rfl⟩

/-- Statements of a call that records nothing. -/
theorem written_run {call : Call} (others : call.items = []) {files : Rows platform.storage backupFiles}
    (written : Rows.Written (FileWrite call) files last) (follows : Int → Option Int) :
    ∃ statements, (∀ statement ∈ statements, statement.OfWriter 0) ∧
      exec Shared.step (Shared.alone files follows) statements = some (.alone last follows) := by
  induction written with
  | refl table => exact ⟨[], List.forall_mem_nil _, rfl⟩
  | step allowed ran _ ih =>
    obtain ⟨statements, own, later⟩ := ih
    cases allowed with
    | recorded now item values member _ =>
      rw [others] at member
      cases member
    | hashed id hash records => exact absurd others records
    | set id values now named settable checksum =>
      refine ⟨.set id values now :: statements, List.forall_mem_cons.mpr ⟨trivial, own⟩,
        exec_cons_eq_some.mpr ⟨_, ?_, later⟩⟩
      rw [Rows.write?] at ran
      rw [Shared.step, Shared.set, if_pos ⟨rfl, checksum, fun column _ => settable column⟩, Shared.alone, ran]
      rfl
    | noted id values columns =>
      refine ⟨.note id values :: statements, List.forall_mem_cons.mpr ⟨trivial, own⟩,
        exec_cons_eq_some.mpr ⟨_, ?_, later⟩⟩
      rw [Rows.write?] at ran
      rw [Shared.step, Shared.note, if_pos ⟨rfl, fun column _ => columns column⟩, Shared.alone, ran]
      rfl

/-- Whatever a call leaves of the table where nothing else is open, a run of one writer's statements leaves. -/
theorem answered_is_run (clock : Clock) (seen catalog : Catalog platform) (call : Call) (follows : Int → Option Int) :
    ∃ statements follows', (∀ statement ∈ statements, Statement.OfWriter 0 statement) ∧
      exec Shared.step (Shared.alone catalog.files follows) statements =
        some (.alone (answered clock seen catalog call).files follows') := by
  have committing : ∀ statement ∈ [Statement.commit 0], Statement.OfWriter 0 statement := by
    intro statement member
    rw [List.mem_singleton.mp member]
    rfl
  cases ran : perform clock seen catalog call with
  | error refusal => exact ⟨[], follows, List.forall_mem_nil _, by rw [answered, ran]; rfl⟩
  | ok after =>
    rw [answered, ran]
    dsimp only
    cases call with
    | recordBackup run items =>
      obtain ⟨answer, ok, rfl⟩ := map_eq_ok ran
      rw [recordBackup] at ok
      iterate 5 obtain ⟨_, _, ok⟩ := bind_eq_ok ok
      obtain ⟨_, known, ok⟩ := bind_eq_ok ok
      obtain ⟨_, _, ok⟩ := bind_eq_ok ok
      obtain ⟨⟨runId, runs⟩, _, ok⟩ := bind_eq_ok ok
      obtain ⟨files, inserted, ok⟩ := bind_eq_ok ok
      cases ok
      have settable (item : Values BackupFileColumn) (member : item ∈ items) :=
        known_ok (forM_ok known item member) BackupFileColumn.mem_all
      obtain ⟨statements, next, own, led, solo, rfl⟩ :=
        insertFiles_run (solo_alone catalog.files follows) settable inserted
      refine ⟨statements ++ [.commit 0], next.follows, List.forall_mem_append.mpr ⟨own, committing⟩, ?_⟩
      rw [exec_append, led, Option.bind_some, commit_run solo]
    | recordBackupFile values =>
      obtain ⟨answer, ok, rfl⟩ := map_eq_ok ran
      rw [recordBackupFile] at ok
      obtain ⟨_, known, ok⟩ := bind_eq_ok ok
      obtain ⟨_, _, ok⟩ := bind_eq_ok ok
      obtain ⟨_, _, ok⟩ := bind_eq_ok ok
      obtain ⟨⟨id, files⟩, inserted, ok⟩ := bind_eq_ok ok
      cases ok
      obtain ⟨next, led, solo, same⟩ := insertChained_run (solo_alone catalog.files follows)
        (known_ok known BackupFileColumn.mem_all) inserted
      refine ⟨[.insert 0 clock.stored values, .hash 0] ++ [.commit 0], next.follows,
        List.forall_mem_append.mpr ⟨ofWriter_insertChained _ _, committing⟩, ?_⟩
      rw [exec_append, led, Option.bind_some, commit_run solo, same]
    | _ =>
      obtain ⟨statements, own, same⟩ := written_run rfl (effect_of_perform ran).files follows
      exact ⟨statements, follows, own, same⟩

end Calls

end Machine

/-! ### Two writers of one entry -/

def secondFile : Values BackupFileColumn
  | .fileName => some (.text "b.bak")
  | .filePath => some (.text "/b/b.bak")
  | column => writtenFile column

/-- A transaction that is rolled back while another is open, and one after it. -/
def inTurn : List Statement :=
  [.insert 0 nightly.stored writtenFile, .hash 0, .insert 1 nightly.stored secondFile, .rollback 1, .commit 0,
    .insert 1 nightly.stored secondFile, .hash 1, .commit 1]

def afterInTurn : Shared textDigest := (exec Shared.step (Shared.start textDigest) inTurn).getD (Shared.start textDigest)

theorem row_chain_unbroken_inTurn : (verifyRowChain textDigest afterInTurn.committed "E").broken = 0 := by
  have there : (exec Shared.step (Shared.start textDigest) inTurn).isSome = true := by decide +kernel
  have ran : exec Shared.step (Shared.start textDigest) inTurn = some afterInTurn := by
    obtain ⟨s, held⟩ := Option.isSome_iff_exists.mp there
    rw [afterInTurn, held, Option.getD_some]
  have inOrder : Every Shared.step (fun before statement _ => before.InOrder statement) (Shared.start textDigest)
      inTurn := by decide +kernel
  exact row_chain_unbroken textDigest inTurn afterInTurn ran inOrder "E"

theorem textDigest_injective : DigestInjective textDigest := by
  intro row other previous before same
  have prefixed : "#" ++ hashedText textDigest row previous = "#" ++ hashedText textDigest other before := same
  have letters := congrArg String.toList prefixed
  rw [String.toList_append, String.toList_append] at letters
  exact String.toList_inj.mp (List.append_cancel_left letters)

theorem broken_after {statements : List Statement} {last : Statement}
    (inOrder : Every Shared.step (fun before statement _ => before.InOrder statement) (Shared.start textDigest) statements)
    (ends : (exec Shared.step (Shared.start textDigest) (statements ++ [last])).isSome = true)
    (breaks : ∀ s next, exec Shared.step (Shared.start textDigest) statements = some s → s.Chained →
      s.step last = some next → (verifyRowChain textDigest next.committed "").broken ≠ 0) :
    ∃ s, exec Shared.step (Shared.start textDigest) (statements ++ [last]) = some s ∧
      (verifyRowChain textDigest s.committed "").broken ≠ 0 := by
  obtain ⟨final, ran⟩ := Option.isSome_iff_exists.mp ends
  have runs := ran
  rw [exec_append, Option.bind_eq_some_iff] at runs
  obtain ⟨s, first, later⟩ := runs
  obtain ⟨next, stepped, ended⟩ := exec_cons_eq_some.mp later
  obtain rfl := Option.some.inj ended
  exact ⟨next, ran, breaks s next first (chained_of_run first inOrder) stepped⟩

/-- A file whose size the backup could not read. -/
def unsizedFile : Values BackupFileColumn
  | .sizeBytes => none
  | .verdict => some (.text "size_failed")
  | column => writtenFile column

def unsized : List Statement := [.insert 0 nightly.stored unsizedFile, .hash 0, .commit 0]

/-- Neither transaction sees the other's row. -/
def overlapping : List Statement :=
  [.insert 0 nightly.stored writtenFile, .hash 0, .insert 1 nightly.stored secondFile, .hash 1, .commit 0]

/-- A size filled in later breaks its row's chain, and so do two transactions that only record files of one entry. -/
theorem calls_break_their_own_chain :
    (¬∀ (statements : List Statement) (s : Shared textDigest) (backupId : String),
      exec Shared.step (Shared.start textDigest) statements = some s →
        (verifyRowChain textDigest s.committed backupId).broken = 0) ∧
    (∃ s, exec Shared.step (Shared.start textDigest)
        (unsized ++ [.set 1 (single .sizeBytes (.integer 7)) nightly.now]) = some s ∧
      (verifyRowChain textDigest s.committed "").broken ≠ 0) ∧
    ∃ s, exec Shared.step (Shared.start textDigest) (overlapping ++ [.commit 1]) = some s ∧
      (verifyRowChain textDigest s.committed "").broken ≠ 0 := by
  have late : ∃ s, exec Shared.step (Shared.start textDigest)
      (unsized ++ [.set 1 (single .sizeBytes (.integer 7)) nightly.now]) = some s ∧
        (verifyRowChain textDigest s.committed "").broken ≠ 0 := by
    refine broken_after (by decide +kernel) (by decide +kernel) ?_
    intro s next ran chained stepped
    refine set_breaks textDigest_injective chained stepped ?_
    intro inOrder
    have there : ((exec Shared.step (Shared.start textDigest) unsized).bind fun s => (s.files.get? 1).map
        fun row => row .sizeBytes) = some .null := by decide +kernel
    rw [ran, Option.bind_some] at there
    obtain ⟨old, found, unread⟩ := Option.map_eq_some_iff.mp there
    have same := inOrder old found (.sizeBytes, "size_bytes") (by simp [chainFields])
    have sized : backupFiles.updated textDigest.storage
        (extended (single .sizeBytes (.integer 7)) (single .updatedAt (.text nightly.now))) old .sizeBytes =
          .integer 7 := rfl
    rw [fieldText, fieldText, sized, unread] at same
    cases same
  have overlap : ∃ s, exec Shared.step (Shared.start textDigest) (overlapping ++ [.commit 1]) = some s ∧
      (verifyRowChain textDigest s.committed "").broken ≠ 0 := by
    refine broken_after (by decide +kernel) (by decide +kernel) ?_
    intro s next ran chained stepped
    refine commit_breaks textDigest_injective chained stepped ?_
    have outOfOrder : ((exec Shared.step (Shared.start textDigest) overlapping).map
        fun s => decide (s.InOrder (.commit 1))) = some false := by decide +kernel
    rw [ran, Option.map_some, Option.some.injEq, decide_eq_false_iff_not] at outOfOrder
    exact outOfOrder
  refine ⟨?_, late, overlap⟩
  intro always
  obtain ⟨s, ran, broken⟩ := late
  exact broken (always _ s "" ran)

end DbaBrain.Db.BackupCatalog
