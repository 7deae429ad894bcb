import DbaBrain.Foundation.Json
import DbaBrain.Foundation.KeyedWrites
import DbaBrain.Foundation.Selection
import DbaBrain.Foundation.Table

/-!
# The config store

One row per configured record, with its revisions.  A record is retired by a
flag; the key of a retired record is free for a new row.
-/

namespace DbaBrain.Db.ConfigStore

open DbaBrain.Foundation DbaBrain.Foundation.KeyedWrites DbaBrain.Foundation.Selection

def documentCollection : String := "__document__"

def documentKey : String := "__document__"

/-- A row of `config_sources`. -/
structure SourceRow where
  configSourceId : Nat
  sourceFile : String
  appCode : String
  displayName : String
  description : String
  sourceOrd : Int
  isActive : Bool
  createdAt : String
  updatedAt : String

/-- A row of `config_collections`. -/
structure CollectionRow where
  configCollectionId : Nat
  configSourceId : Nat
  collection : String
  keyFields : List String
  labelField : String
  collectionOrd : Int
  isActive : Bool
  createdAt : String
  updatedAt : String

/-- A row of `config_items`; `itemJson` is the value its text is of. -/
structure ItemRow where
  configItemId : Nat
  configCollectionId : Nat
  itemKey : String
  itemOrd : Int
  label : String
  itemJson : Json
  contentHash : String
  metadata : Json
  revision : Nat
  isActive : Bool
  createdAt : String
  updatedAt : String
  deactivatedAt : Option String
  updatedBy : String
  note : String
  deriving DecidableEq

inductive ChangeType
  | insert
  | update
  | deactivate

/-- A row of `config_item_revisions`. -/
structure RevisionRow where
  configRevisionId : Nat
  configItemId : Nat
  revision : Nat
  itemJson : Json
  contentHash : String
  isActive : Bool
  changeType : ChangeType
  changedAt : String
  changedBy : String
  note : String

def sourceEntry (row : SourceRow) : Option String := some row.sourceFile

/-- `uq_config_collections`. -/
def collectionEntry (row : CollectionRow) : Option (Nat × String) := some (row.configSourceId, row.collection)

/-- `ux_config_items_active`. -/
def activeEntry (row : ItemRow) : Option (Nat × String) :=
  if row.isActive then some (row.configCollectionId, row.itemKey) else none

/-- `uq_config_item_revisions`. -/
def revisionEntry (row : RevisionRow) : Option (Nat × Nat) := some (row.configItemId, row.revision)

abbrev ItemTable := Table ItemRow.configItemId activeEntry

structure Store where
  sources : Table SourceRow.configSourceId sourceEntry
  collections : Table CollectionRow.configCollectionId collectionEntry
  items : ItemTable
  revisions : Table RevisionRow.configRevisionId revisionEntry

def Store.empty : Store := ⟨Table.empty, Table.empty, Table.empty, Table.empty⟩

/-! ## Records -/

def canonicalJson (payload : Json) : String := Json.dumps ⟨false, false⟩ payload

/-- `content_hash`, over any digest of a text. -/
def contentHash (digest : String → String) (payload : Json) : String := digest (canonicalJson payload)

structure ConfigItem where
  sourceFile : String
  collection : String
  itemKey : String
  payload : Json
  itemOrd : Int
  label : String
  note : String
  metadata : List (String × Json)
  deriving DecidableEq

/-- The record's key in its file. -/
def ConfigItem.key (item : ConfigItem) : String × String := (item.collection, item.itemKey)

/-- Who calls and with what note, and the clock's readings in the order the call makes them. -/
structure Call where
  actor : String
  note : String
  clock : Nat → String

/-- `note or item.note`. -/
def noteOf (call : Call) (item : ConfigItem) : String := if call.note = "" then item.note else call.note

/-! ## Reads -/

def Store.inFile (store : Store) (sourceFile : String) (row : CollectionRow) : Bool :=
  (store.sources.lookup row.configSourceId).any fun source => source.sourceFile = sourceFile

def Store.collectionId (store : Store) (sourceFile collection : String) : Option Nat :=
  (store.collections.rows.find? fun row => row.collection = collection && store.inFile sourceFile row).map
    CollectionRow.configCollectionId

def Store.activeItem (store : Store) (collectionId : Nat) (itemKey : String) : Option ItemRow :=
  store.items.rows.find? fun row => activeEntry row = some (collectionId, itemKey)

/-- Every recorded state of one row, in the order they were recorded. -/
def Store.revisionsOf (store : Store) (configItemId : Nat) : List RevisionRow :=
  store.revisions.rows.filter fun row => row.configItemId = configItemId

/-- An active row with the collection and the file it belongs to. -/
structure Listed where
  source : SourceRow
  collection : CollectionRow
  row : ItemRow

def Listed.key (listed : Listed) : String × String := (listed.collection.collection, listed.row.itemKey)

/-- `ORDER BY`. -/
def Listed.place (listed : Listed) : String ×ₗ String ×ₗ Int ×ₗ String ×ₗ Int ×ₗ String ×ₗ Nat :=
  toLex (listed.source.appCode, toLex (listed.source.sourceFile, toLex (listed.collection.collectionOrd,
    toLex (listed.collection.collection, toLex (listed.row.itemOrd, toLex (listed.row.itemKey, listed.row.configItemId))))))

/-- The row's collection and file, when it is active and one of the file's; every file's without a name. -/
def Store.listed (store : Store) (sourceFile : String) (row : ItemRow) : Option Listed :=
  if row.isActive then
    (store.collections.lookup row.configCollectionId).bind fun collection =>
      (store.sources.lookup collection.configSourceId).bind fun source =>
        if sourceFile = "" ∨ source.sourceFile = sourceFile then some ⟨source, collection, row⟩ else none
  else none

def Store.listItems (store : Store) (sourceFile : String) : List Listed :=
  sortedBy Listed.place (store.items.rows.filterMap (store.listed sourceFile))

def Store.getItem (store : Store) (sourceFile : String) (key : String × String) : Option ItemRow :=
  (store.collectionId sourceFile key.1).bind fun collectionId => store.activeItem collectionId key.2

/-! ## Writes -/

inductive StoreError
  | unknownSource (sourceFile : String)
  | notRegistered (sourceFile collection : String)
  | refused

def newSource (configSourceId : Nat) (sourceFile appCode displayName description : String) (clock : Nat → String) :
    SourceRow where
  configSourceId := configSourceId
  sourceFile := sourceFile
  appCode := appCode
  displayName := displayName
  description := description
  sourceOrd := 0
  isActive := true
  createdAt := clock 0
  updatedAt := clock 1

def renewedSource (appCode displayName description : String) (clock : Nat → String) (row : SourceRow) : SourceRow :=
  { row with
    appCode := appCode
    displayName := displayName
    description := description
    sourceOrd := 0
    isActive := true
    updatedAt := clock 0 }

def ensureSource (store : Store) (sourceFile appCode displayName description : String) (clock : Nat → String) :
    Except StoreError Store :=
  match store.sources.rows.find? fun row => row.sourceFile = sourceFile with
  | none =>
      match store.sources.insert?
          (newSource (store.sources.nextKey 0) sourceFile appCode displayName description clock) with
      | none => .error .refused
      | some sources => .ok { store with sources := sources }
  | some found =>
      match store.sources.update? (fun row => row.configSourceId = found.configSourceId)
          (renewedSource appCode displayName description clock) with
      | none => .error .refused
      | some sources => .ok { store with sources := sources }

def newCollection (configCollectionId configSourceId : Nat) (collection : String) (keyFields : List String)
    (labelField : String) (collectionOrd : Int) (clock : Nat → String) : CollectionRow where
  configCollectionId := configCollectionId
  configSourceId := configSourceId
  collection := collection
  keyFields := keyFields
  labelField := labelField
  collectionOrd := collectionOrd
  isActive := true
  createdAt := clock 0
  updatedAt := clock 1

def renewedCollection (keyFields : List String) (labelField : String) (collectionOrd : Int) (clock : Nat → String)
    (row : CollectionRow) : CollectionRow :=
  { row with
    keyFields := keyFields
    labelField := labelField
    collectionOrd := collectionOrd
    isActive := true
    updatedAt := clock 0 }

def ensureCollection (store : Store) (sourceFile collection : String) (keyFields : List String) (labelField : String)
    (collectionOrd : Int) (clock : Nat → String) : Except StoreError Store :=
  match store.sources.rows.find? fun row => row.sourceFile = sourceFile with
  | none => .error (.unknownSource sourceFile)
  | some source =>
      match store.collections.rows.find? fun row =>
          row.configSourceId = source.configSourceId && row.collection = collection with
      | none =>
          match store.collections.insert? (newCollection (store.collections.nextKey 0) source.configSourceId
              collection keyFields labelField collectionOrd clock) with
          | none => .error .refused
          | some collections => .ok { store with collections := collections }
      | some found =>
          match store.collections.update? (fun row => row.configCollectionId = found.configCollectionId)
              (renewedCollection keyFields labelField collectionOrd clock) with
          | none => .error .refused
          | some collections => .ok { store with collections := collections }

/-- `deactivate_source`, and whether there was a row to retire. -/
def deactivateSource (store : Store) (sourceFile : String) (clock : Nat → String) : Except StoreError (Store × Bool) :=
  let matching := fun row : SourceRow => row.sourceFile = sourceFile && row.isActive
  match store.sources.update? matching fun row => { row with isActive := false, updatedAt := clock 0 } with
  | none => .error .refused
  | some sources => .ok ({ store with sources := sources }, store.sources.rows.any matching)

/-- The transaction of a write of an item and its revision. -/
def commit (store : Store) (items : Option ItemTable) (revision : Nat → RevisionRow) : Except StoreError Store :=
  match items with
  | none => .error .refused
  | some items =>
      match store.revisions.insert? (revision (store.revisions.nextKey 0)) with
      | none => .error .refused
      | some revisions => .ok { store with items := items, revisions := revisions }

def recordRevision (row : ItemRow) (changeType : ChangeType) (changedAt : String) (configRevisionId : Nat) :
    RevisionRow where
  configRevisionId := configRevisionId
  configItemId := row.configItemId
  revision := row.revision
  itemJson := row.itemJson
  contentHash := row.contentHash
  isActive := row.isActive
  changeType := changeType
  changedAt := changedAt
  changedBy := row.updatedBy
  note := row.note

section Writes

variable (digest : String → String)

/-- The row of a new record. -/
def insertedRow (collectionId configItemId : Nat) (item : ConfigItem) (call : Call) : ItemRow where
  configItemId := configItemId
  configCollectionId := collectionId
  itemKey := item.itemKey
  itemOrd := item.itemOrd
  label := item.label
  itemJson := item.payload
  contentHash := contentHash digest item.payload
  metadata := .object item.metadata
  revision := 1
  isActive := true
  createdAt := call.clock 0
  updatedAt := call.clock 1
  deactivatedAt := none
  updatedBy := call.actor
  note := noteOf call item

/-- The row of a changed record. -/
def updatedRow (row : ItemRow) (item : ConfigItem) (call : Call) : ItemRow :=
  { row with
    itemOrd := item.itemOrd
    label := item.label
    itemJson := item.payload
    contentHash := contentHash digest item.payload
    metadata := .object item.metadata
    revision := row.revision + 1
    updatedAt := call.clock 0
    updatedBy := call.actor
    note := noteOf call item }

/-- The row of a retired record. -/
def deactivatedRow (row : ItemRow) (call : Call) : ItemRow :=
  { row with
    isActive := false
    revision := row.revision + 1
    deactivatedAt := some (call.clock 0)
    updatedAt := call.clock 1
    updatedBy := call.actor
    note := call.note }

def saysSame (row : ItemRow) (item : ConfigItem) : Bool :=
  row.contentHash = contentHash digest item.payload && row.itemOrd = item.itemOrd && row.label = item.label

/-- What an upsert compares: the content, the place and the label. -/
abbrev Face := String × Int × String

def ItemRow.face (row : ItemRow) : Face := (row.contentHash, row.itemOrd, row.label)

def ConfigItem.face (item : ConfigItem) : Face := (contentHash digest item.payload, item.itemOrd, item.label)

/-- `UPDATE config_items SET .. WHERE config_item_id = ?`. -/
def replaceItem (store : Store) (row : ItemRow) : Option ItemTable :=
  store.items.update? (fun other => other.configItemId = row.configItemId) fun other =>
    { row with configItemId := other.configItemId }

/-- `upsert_item`: the store it leaves, the row's id and what was done.  The text of a `Json` has bytes and is what
`json_valid` takes. -/
def upsertItem (store : Store) (item : ConfigItem) (call : Call) : Except StoreError (Store × Nat × Action) :=
  match store.collectionId item.sourceFile item.collection with
  | none => .error (.notRegistered item.sourceFile item.collection)
  | some collectionId =>
      match store.activeItem collectionId item.itemKey with
      | none =>
          let row := insertedRow digest collectionId (store.items.nextKey 0) item call
          match commit store (store.items.insert? row) (recordRevision row .insert (call.clock 2)) with
          | .error reason => .error reason
          | .ok next => .ok (next, row.configItemId, .inserted)
      | some existing =>
          if saysSame digest existing item then .ok (store, existing.configItemId, .unchanged)
          else
            let row := updatedRow digest existing item call
            match commit store (replaceItem store row) (recordRevision row .update (call.clock 1)) with
            | .error reason => .error reason
            | .ok next => .ok (next, existing.configItemId, .updated)

end Writes

/-- `deactivate_item`: the store it leaves, and the id of the row it retired, if there was one. -/
def deactivateItem (store : Store) (sourceFile collection itemKey : String) (call : Call) :
    Except StoreError (Store × Option Nat) :=
  match store.collectionId sourceFile collection with
  | none => .error (.notRegistered sourceFile collection)
  | some collectionId =>
      match store.activeItem collectionId itemKey with
      | none => .ok (store, none)
      | some existing =>
          let row := deactivatedRow existing call
          match commit store (replaceItem store row) (recordRevision row .deactivate (call.clock 2)) with
          | .error reason => .error reason
          | .ok next => .ok (next, some existing.configItemId)

/-! ## What a write leaves -/

/-- The row is written, new or in its place, with a revision that records it; nothing else changes. -/
structure Wrote (store next : Store) (row : ItemRow) (changeType : ChangeType) : Prop where
  sources : next.sources = store.sources
  collections : next.collections = store.collections
  items : ∀ configItemId, next.items.lookup configItemId =
    if configItemId = row.configItemId then some row else store.items.lookup configItemId
  revisions : ∃ changedAt configRevisionId, next.revisions.rows =
    store.revisions.rows ++ [recordRevision row changeType changedAt configRevisionId]

section Specs

variable {digest : String → String} {store next : Store} {collectionId configItemId : Nat} {itemKey : String}
  {row existing : ItemRow} {item : ConfigItem} {call : Call} {action : Action} {changeType : ChangeType}
  {changedAt : String}

theorem activeItem_eq_some_iff :
    store.activeItem collectionId itemKey = some row ↔
      row ∈ store.items.rows ∧ activeEntry row = some (collectionId, itemKey) := by
  constructor
  · intro found
    exact ⟨List.mem_of_find?_eq_some found, by simpa using List.find?_some found⟩
  · rintro ⟨member, covered⟩
    cases found : store.activeItem collectionId itemKey with
    | none =>
      have missing := List.find?_eq_none.mp found row member
      simp [covered] at missing
    | some other =>
      have covers : activeEntry other = some (collectionId, itemKey) := by simpa using List.find?_some found
      rw [Table.eq_of_index_eq (List.mem_of_find?_eq_some found) member covers covered]

theorem activeItem_eq_none_iff :
    store.activeItem collectionId itemKey = none ↔
      ∀ row ∈ store.items.rows, activeEntry row ≠ some (collectionId, itemKey) := by
  simp [Store.activeItem]

theorem activeEntry_eq_some_iff :
    activeEntry row = some (collectionId, itemKey) ↔
      row.isActive = true ∧ row.configCollectionId = collectionId ∧ row.itemKey = itemKey := by
  rw [activeEntry, Option.ite_none_right_eq_some, Option.some_inj, Prod.mk.injEq]

theorem commit_eq_ok {items : Option ItemTable} {revision : Nat → RevisionRow}
    (committed : commit store items revision = .ok next) :
    ∃ table revisions, items = some table ∧
      store.revisions.insert? (revision (store.revisions.nextKey 0)) = some revisions ∧
      next = { store with items := table, revisions := revisions } := by
  cases items with
  | none => cases committed
  | some table =>
    simp only [commit] at committed
    cases accepted : store.revisions.insert? (revision (store.revisions.nextKey 0)) with
    | none =>
      rw [accepted] at committed
      cases committed
    | some revisions =>
      rw [accepted] at committed
      cases committed
      exact ⟨table, revisions, rfl, rfl, rfl⟩

theorem wrote_of_insert (committed :
    commit store (store.items.insert? row) (recordRevision row changeType changedAt) = .ok next) :
    Wrote store next row changeType := by
  obtain ⟨table, revisions, accepted, recorded, rfl⟩ := commit_eq_ok committed
  refine ⟨rfl, rfl, ?_, ⟨changedAt, _, Table.rows_of_insert? recorded⟩⟩
  intro configItemId
  rw [Table.lookup_insert? accepted]
  exact if_congr eq_comm rfl rfl

theorem wrote_of_replace (found : store.items.lookup row.configItemId = some existing) (committed :
    commit store (replaceItem store row) (recordRevision row changeType changedAt) = .ok next) :
    Wrote store next row changeType := by
  obtain ⟨table, revisions, accepted, recorded, rfl⟩ := commit_eq_ok committed
  refine ⟨rfl, rfl, ?_, ⟨changedAt, _, Table.rows_of_insert? recorded⟩⟩
  intro configItemId
  have keeps : ∀ other : ItemRow, ({ row with configItemId := other.configItemId } : ItemRow).configItemId =
      other.configItemId := fun _ => rfl
  refine (Table.lookup_update? keeps accepted configItemId).trans ?_
  rcases eq_or_ne configItemId row.configItemId with rfl | different
  · have same : existing.configItemId = row.configItemId := Table.key_of_lookup found
    rw [found, if_pos rfl]
    simp [same]
  · rw [if_neg different]
    cases looked : store.items.lookup configItemId with
    | none => rfl
    | some other =>
      have own : other.configItemId = configItemId := Table.key_of_lookup looked
      simp [own, different]

/-- The written row has one revision more, and the others the ones they had. -/
theorem Wrote.revisionsOf (wrote : Wrote store next row changeType) :
    ∃ changedAt configRevisionId, ∀ configItemId, next.revisionsOf configItemId =
      store.revisionsOf configItemId ++
        if row.configItemId = configItemId then [recordRevision row changeType changedAt configRevisionId] else [] := by
  obtain ⟨changedAt, configRevisionId, rows⟩ := wrote.revisions
  refine ⟨changedAt, configRevisionId, fun configItemId => ?_⟩
  rw [Store.revisionsOf, rows, List.filter_append]
  congr 1
  simp [List.filter_singleton, recordRevision]

theorem Wrote.mem_items (wrote : Wrote store next row changeType) {other : ItemRow} :
    other ∈ next.items.rows ↔
      other = row ∨ (other ∈ store.items.rows ∧ other.configItemId ≠ row.configItemId) := by
  have before : ∀ table : ItemTable, other ∈ table.rows ↔ table.lookup other.configItemId = some other := by
    intro table
    rw [Table.lookup_eq_some_iff, and_iff_left rfl]
  rw [before, wrote.items, before]
  rcases eq_or_ne other.configItemId row.configItemId with same | different
  · rw [if_pos same, Option.some_inj]
    simp [same, eq_comm]
  · rw [if_neg different]
    constructor
    · intro found
      exact Or.inr ⟨found, different⟩
    · rintro (rfl | ⟨found, _⟩)
      · exact absurd rfl different
      · exact found

/-- An upsert that is not refused inserts, leaves or updates. -/
theorem upsertItem_cases (done : upsertItem digest store item call = .ok (next, configItemId, action)) :
    ∃ collectionId, store.collectionId item.sourceFile item.collection = some collectionId ∧
      ((store.activeItem collectionId item.itemKey = none ∧ action = .inserted ∧
          Wrote store next (insertedRow digest collectionId (store.items.nextKey 0) item call) .insert) ∨
        ∃ existing, store.activeItem collectionId item.itemKey = some existing ∧
          ((saysSame digest existing item = true ∧ action = .unchanged ∧ next = store) ∨
            (saysSame digest existing item = false ∧ action = .updated ∧
              Wrote store next (updatedRow digest existing item call) .update))) := by
  rw [upsertItem] at done
  cases registered : store.collectionId item.sourceFile item.collection with
  | none =>
    rw [registered] at done
    cases done
  | some collectionId =>
    refine ⟨collectionId, rfl, ?_⟩
    rw [registered] at done
    simp only at done
    cases active : store.activeItem collectionId item.itemKey with
    | none =>
      rw [active] at done
      simp only at done
      split at done
      · cases done
      · rename_i committed
        cases done
        exact Or.inl ⟨rfl, rfl, wrote_of_insert committed⟩
    | some existing =>
      rw [active] at done
      simp only at done
      refine Or.inr ⟨existing, rfl, ?_⟩
      cases same : saysSame digest existing item with
      | true =>
        rw [same, if_pos rfl] at done
        cases done
        exact Or.inl ⟨rfl, rfl, rfl⟩
      | false =>
        rw [same, if_neg Bool.false_ne_true] at done
        split at done
        · cases done
        · rename_i committed
          cases done
          have found : store.items.lookup existing.configItemId = some existing :=
            Table.lookup_of_mem (activeItem_eq_some_iff.mp active).1
          exact Or.inr ⟨rfl, rfl, wrote_of_replace found committed⟩

variable {retired : Option Nat}

/-- A deactivation that is not refused retires the active row, or finds none. -/
theorem deactivateItem_cases (done : deactivateItem store sourceFile collection itemKey call = .ok (next, retired)) :
    ∃ collectionId, store.collectionId sourceFile collection = some collectionId ∧
      ((store.activeItem collectionId itemKey = none ∧ retired = none ∧ next = store) ∨
        ∃ existing, store.activeItem collectionId itemKey = some existing ∧
          retired = some existing.configItemId ∧ Wrote store next (deactivatedRow existing call) .deactivate) := by
  rw [deactivateItem] at done
  cases registered : store.collectionId sourceFile collection with
  | none =>
    rw [registered] at done
    cases done
  | some collectionId =>
    refine ⟨collectionId, rfl, ?_⟩
    rw [registered] at done
    simp only at done
    cases active : store.activeItem collectionId itemKey with
    | none =>
      rw [active] at done
      cases done
      exact Or.inl ⟨rfl, rfl, rfl⟩
    | some existing =>
      rw [active] at done
      simp only at done
      split at done
      · cases done
      · rename_i committed
        cases done
        have found : store.items.lookup existing.configItemId = some existing :=
          Table.lookup_of_mem (activeItem_eq_some_iff.mp active).1
        exact Or.inr ⟨existing, rfl, rfl, wrote_of_replace found committed⟩

/-! ## What a file's rows are -/

variable {sourceFile collection : String} {key : String × String} {listed : Listed}

theorem collectionId_eq_some_iff :
    store.collectionId sourceFile collection = some collectionId ↔
      ∃ row, store.collections.lookup collectionId = some row ∧ row.collection = collection ∧
        ∃ source, store.sources.lookup row.configSourceId = some source ∧ source.sourceFile = sourceFile := by
  have holds : ∀ row : CollectionRow, (row.collection = collection && store.inFile sourceFile row) = true ↔
      row.collection = collection ∧ ∃ source, store.sources.lookup row.configSourceId = some source ∧
        source.sourceFile = sourceFile := by
    intro row
    rw [Bool.and_eq_true, decide_eq_true_eq, Store.inFile, Option.any_eq_true]
    simp only [decide_eq_true_eq]
  rw [Store.collectionId, Option.map_eq_some_iff]
  constructor
  · rintro ⟨row, found, rfl⟩
    have matched := List.find?_some found
    obtain ⟨named, inFile⟩ := (holds row).mp matched
    exact ⟨row, Table.lookup_of_mem (List.mem_of_find?_eq_some found), named, inFile⟩
  · rintro ⟨row, looked, named, source, sourced, filed⟩
    obtain ⟨member, rfl⟩ := Table.lookup_eq_some_iff.mp looked
    cases found : store.collections.rows.find? fun row => row.collection = collection && store.inFile sourceFile row with
    | none =>
      have missing := List.find?_eq_none.mp found row member
      exact absurd ((holds row).mpr ⟨named, source, sourced, filed⟩) missing
    | some other =>
      have matched := List.find?_some found
      obtain ⟨otherNamed, otherSource, otherSourced, otherFiled⟩ := (holds other).mp matched
      have one : otherSource = source := Table.eq_of_index_eq (Table.mem_of_lookup otherSourced)
        (Table.mem_of_lookup sourced) (congrArg some otherFiled) (congrArg some filed)
      have sameSource : other.configSourceId = row.configSourceId := by
        rw [← Table.key_of_lookup otherSourced, one, Table.key_of_lookup sourced]
      have covered : collectionEntry other = some (row.configSourceId, row.collection) := by
        rw [collectionEntry, sameSource, otherNamed, named]
      exact ⟨other, rfl, congrArg CollectionRow.configCollectionId
        (Table.eq_of_index_eq (List.mem_of_find?_eq_some found) member covered rfl)⟩

theorem listed_eq_some_iff (named : sourceFile ≠ "") :
    store.listed sourceFile row = some listed ↔
      listed.row = row ∧ row.isActive = true ∧
        store.collections.lookup row.configCollectionId = some listed.collection ∧
        store.sources.lookup listed.collection.configSourceId = some listed.source ∧
        listed.source.sourceFile = sourceFile := by
  rw [Store.listed, Option.ite_none_right_eq_some, Option.bind_eq_some_iff]
  constructor
  · rintro ⟨active, collection, inCollection, rest⟩
    obtain ⟨source, sourced, kept⟩ := Option.bind_eq_some_iff.mp rest
    rw [Option.ite_none_right_eq_some] at kept
    obtain ⟨filed, same⟩ := kept
    cases same
    exact ⟨rfl, active, inCollection, sourced, filed.resolve_left named⟩
  · rintro ⟨rfl, active, inCollection, sourced, filed⟩
    refine ⟨active, listed.collection, inCollection, ?_⟩
    rw [sourced, Option.bind_some, if_pos (Or.inr filed)]

theorem mem_listItems_iff (named : sourceFile ≠ "") :
    (∃ listed ∈ store.listItems sourceFile, listed.key = key ∧ listed.row = row) ↔
      store.getItem sourceFile key = some row := by
  simp only [Store.listItems, mem_sortedBy, List.mem_filterMap, Store.getItem, Option.bind_eq_some_iff]
  constructor
  · rintro ⟨listed, ⟨other, member, present⟩, rfl, rfl⟩
    obtain ⟨rfl, active, inCollection, sourced, filed⟩ := (listed_eq_some_iff named).mp present
    refine ⟨listed.row.configCollectionId, ?_, ?_⟩
    · exact collectionId_eq_some_iff.mpr ⟨listed.collection, inCollection, rfl, listed.source, sourced, filed⟩
    · exact activeItem_eq_some_iff.mpr ⟨member, activeEntry_eq_some_iff.mpr ⟨active, rfl, rfl⟩⟩
  · rintro ⟨collectionId, registered, active⟩
    obtain ⟨collection, inCollection, called, source, sourced, filed⟩ := collectionId_eq_some_iff.mp registered
    obtain ⟨member, covered⟩ := activeItem_eq_some_iff.mp active
    obtain ⟨alive, rfl, sameKey⟩ := activeEntry_eq_some_iff.mp covered
    refine ⟨⟨source, collection, row⟩, ⟨row, member, ?_⟩, Prod.ext called sameKey, rfl⟩
    exact (listed_eq_some_iff named).mpr ⟨rfl, alive, inCollection, sourced, filed⟩

theorem listItems_keys_nodup (named : sourceFile ≠ "") : ((store.listItems sourceFile).map Listed.key).Nodup := by
  have rows : (store.listItems sourceFile).Nodup := by
    rw [Store.listItems, (sortedBy_perm _ _).nodup_iff]
    refine List.Nodup.filterMap ?_ store.items.keys_nodup.of_map
    intro first second listed here there
    rw [Option.mem_def, listed_eq_some_iff named] at here there
    exact here.1.symm.trans there.1
  refine List.Nodup.map_on ?_ rows
  intro first member second present same
  have one := (mem_listItems_iff named).mp ⟨first, member, rfl, rfl⟩
  rw [same, (mem_listItems_iff named).mp ⟨second, present, rfl, rfl⟩, Option.some_inj] at one
  rw [Store.listItems, mem_sortedBy, List.mem_filterMap] at member present
  obtain ⟨_, _, here⟩ := member
  obtain ⟨_, _, there⟩ := present
  obtain ⟨rfl, _⟩ := (listed_eq_some_iff named).mp here
  obtain ⟨rfl, _⟩ := (listed_eq_some_iff named).mp there
  rw [one] at there
  exact Option.some.inj (here.symm.trans there)

/-! ## What a write does to a file's rows -/

theorem saysSame_iff : saysSame digest row item = true ↔ row.face = item.face digest := by
  simp [saysSame, ItemRow.face, ConfigItem.face, and_assoc]

/-- Two names of one collection are one name in one file. -/
theorem collectionId_inj {otherFile otherCollection : String}
    (registered : store.collectionId sourceFile collection = some collectionId)
    (again : store.collectionId otherFile otherCollection = some collectionId) :
    otherFile = sourceFile ∧ otherCollection = collection := by
  obtain ⟨row, looked, rfl, source, sourced, rfl⟩ := collectionId_eq_some_iff.mp registered
  obtain ⟨other, found, rfl, second, there, rfl⟩ := collectionId_eq_some_iff.mp again
  obtain rfl := Option.some.inj (looked.symm.trans found)
  obtain rfl := Option.some.inj (sourced.symm.trans there)
  exact ⟨rfl, rfl⟩

theorem Wrote.collectionId_eq (wrote : Wrote store next row changeType) (sourceFile collection : String) :
    next.collectionId sourceFile collection = store.collectionId sourceFile collection := by
  have files : next.inFile sourceFile = store.inFile sourceFile := by
    funext row
    rw [Store.inFile, wrote.sources, Store.inFile]
  rw [Store.collectionId, wrote.collections, files, Store.collectionId]

theorem Wrote.activeItem (wrote : Wrote store next row changeType) (collectionId : Nat) (itemKey : String) :
    next.activeItem collectionId itemKey =
      if activeEntry row = some (collectionId, itemKey) then some row
      else (store.activeItem collectionId itemKey).filter fun other => other.configItemId ≠ row.configItemId := by
  refine Option.ext fun other => ?_
  rw [activeItem_eq_some_iff, wrote.mem_items]
  split
  · rename_i covered
    constructor
    · rintro ⟨rfl | ⟨member, different⟩, covers⟩
      · rfl
      · have here := wrote.mem_items.mpr (Or.inl rfl)
        have there := wrote.mem_items.mpr (Or.inr ⟨member, different⟩)
        exact congrArg some (Table.eq_of_index_eq here there covered covers)
    · intro same
      obtain rfl := Option.some.inj same
      exact ⟨Or.inl rfl, covered⟩
  · rename_i uncovered
    rw [Option.filter_eq_some_iff, activeItem_eq_some_iff, decide_eq_true_eq]
    constructor
    · rintro ⟨rfl | ⟨member, different⟩, covers⟩
      · exact absurd covers uncovered
      · exact ⟨⟨member, covers⟩, different⟩
    · rintro ⟨⟨member, covers⟩, different⟩
      exact ⟨Or.inr ⟨member, different⟩, covers⟩

/-- A write of the active row of a key, or of its first, changes that key only. -/
theorem Wrote.getItem (wrote : Wrote store next row changeType) (key : String × String)
    (registered : store.collectionId sourceFile key.1 = some collectionId)
    (identity : row.configCollectionId = collectionId ∧ row.itemKey = key.2)
    (held : ∀ old, store.activeItem collectionId key.2 = some old → old.configItemId = row.configItemId)
    (replaces : ∀ old ∈ store.items.rows, old.configItemId = row.configItemId →
      activeEntry old = some (collectionId, key.2)) (file : String) (other : String × String) :
    next.getItem file other =
      if file = sourceFile ∧ other = key then (if row.isActive then some row else none)
      else store.getItem file other := by
  obtain ⟨rfl, sameKey⟩ := identity
  rw [Store.getItem, wrote.collectionId_eq]
  by_cases own : file = sourceFile ∧ other = key
  · obtain ⟨rfl, rfl⟩ := own
    rw [if_pos ⟨rfl, rfl⟩, registered, Option.bind_some, wrote.activeItem]
    cases active : row.isActive with
    | true =>
      have covered : activeEntry row = some (row.configCollectionId, other.2) :=
        activeEntry_eq_some_iff.mpr ⟨active, rfl, sameKey⟩
      rw [if_pos covered]
      rfl
    | false =>
      have uncovered : activeEntry row ≠ some (row.configCollectionId, other.2) := by
        rw [activeEntry, active]
        exact nofun
      rw [if_neg uncovered, Option.filter_eq_none_iff.mpr fun old found => by simp [held old found]]
      rfl
  · rw [if_neg own, Store.getItem]
    cases there : store.collectionId file other.1 with
    | none => rfl
    | some otherId =>
      have apart : ¬ (otherId = row.configCollectionId ∧ other.2 = key.2) := by
        rintro ⟨rfl, same⟩
        obtain ⟨rfl, named⟩ := collectionId_inj registered there
        exact own ⟨rfl, Prod.ext named same⟩
      rw [Option.bind_some, Option.bind_some, wrote.activeItem, if_neg]
      · cases found : store.activeItem otherId other.2 with
        | none => rfl
        | some old =>
          obtain ⟨member, covers⟩ := activeItem_eq_some_iff.mp found
          rw [Option.filter_some, if_pos]
          refine decide_eq_true fun sameId => apart ?_
          have both := Option.some.inj (covers.symm.trans (replaces old member sameId))
          exact ⟨(Prod.mk.inj both).1, (Prod.mk.inj both).2⟩
      · intro covered
        obtain ⟨_, sameId, same⟩ := activeEntry_eq_some_iff.mp covered
        exact apart ⟨sameId.symm, same.symm.trans sameKey⟩

/-- An upsert leaves the item as the active row of its key, and the other keys as they were; what it did is
told by the row there was. -/
theorem getItem_upsertItem (done : upsertItem digest store item call = .ok (next, configItemId, action)) :
    (∀ file collection, next.collectionId file collection = store.collectionId file collection) ∧
      action = KeyedWrites.action ((store.getItem item.sourceFile item.key).map ItemRow.face)
        (item.face digest) ∧
      ∃ row, row.face = item.face digest ∧ ∀ file key, next.getItem file key =
        if file = item.sourceFile ∧ key = item.key then some row else store.getItem file key := by
  obtain ⟨collectionId, registered, cases⟩ := upsertItem_cases done
  have held : store.getItem item.sourceFile item.key = store.activeItem collectionId item.itemKey := by
    rw [Store.getItem, ConfigItem.key, registered, Option.bind_some]
  rw [held]
  rcases cases with ⟨fresh, rfl, wrote⟩ | ⟨existing, active, ⟨same, rfl, rfl⟩ | ⟨changed, rfl, wrote⟩⟩
  · refine ⟨wrote.collectionId_eq, by rw [fresh]; rfl,
      insertedRow digest collectionId (store.items.nextKey 0) item call, rfl, fun file key => ?_⟩
    have unused := Table.lookup_eq_none_iff.mp (Table.lookup_nextKey store.items 0)
    refine wrote.getItem item.key registered ⟨rfl, rfl⟩ ?_ ?_ file key
    · intro old found
      exact absurd (fresh.symm.trans found) nofun
    · intro old member sameId
      exact absurd sameId (unused old member)
  · refine ⟨fun _ _ => rfl, ?_, existing, saysSame_iff.mp same, fun file key => ?_⟩
    · rw [active, Option.map_some, eq_comm, action_eq_unchanged_iff, saysSame_iff.mp same]
    · split
      · rename_i own
        obtain ⟨rfl, rfl⟩ := own
        rw [held, active]
      · rfl
  · obtain ⟨member, covered⟩ := activeItem_eq_some_iff.mp active
    obtain ⟨alive, sameId, sameKey⟩ := activeEntry_eq_some_iff.mp covered
    refine ⟨wrote.collectionId_eq, ?_, updatedRow digest existing item call, rfl, fun file key => ?_⟩
    · have differ : existing.face ≠ item.face digest := by
        intro same
        rw [saysSame_iff.mpr same] at changed
        cases changed
      rw [active, Option.map_some, KeyedWrites.action]
      exact (if_neg differ).symm
    · have written := wrote.getItem item.key registered ⟨sameId, sameKey⟩
        (fun old found => by rw [Option.some.inj (active.symm.trans found)]; rfl)
        (fun old present same => by rw [Table.eq_of_key_eq present member same]; exact covered) file key
      rw [written]
      have stays : (updatedRow digest existing item call).isActive = true := alive
      rw [if_pos stays]

/-- A deactivation leaves no active row of its key, and the other keys as they were. -/
theorem getItem_deactivateItem (done : deactivateItem store sourceFile collection itemKey call = .ok (next, retired)) :
    (∀ file collection, next.collectionId file collection = store.collectionId file collection) ∧
      ∀ file key, next.getItem file key =
        if file = sourceFile ∧ key = (collection, itemKey) then none else store.getItem file key := by
  obtain ⟨collectionId, registered, ⟨fresh, _, rfl⟩ | ⟨existing, active, _, wrote⟩⟩ := deactivateItem_cases done
  · refine ⟨fun _ _ => rfl, fun file key => ?_⟩
    split
    · rename_i own
      obtain ⟨rfl, rfl⟩ := own
      rw [Store.getItem, registered, Option.bind_some, fresh]
    · rfl
  · obtain ⟨member, covered⟩ := activeItem_eq_some_iff.mp active
    obtain ⟨_, sameId, sameKey⟩ := activeEntry_eq_some_iff.mp covered
    refine ⟨wrote.collectionId_eq, fun file key => ?_⟩
    have written := wrote.getItem (collection, itemKey) registered ⟨sameId, sameKey⟩
      (fun old found => by rw [Option.some.inj (active.symm.trans found)]; rfl)
      (fun old present same => by rw [Table.eq_of_key_eq present member same]; exact covered) file key
    rw [written]
    rfl

end Specs

end DbaBrain.Db.ConfigStore
