import DbaBrain.Db.ConfigRegistry
import DbaBrain.Db.ConfigSync

/-!
# Syncing one file

A sync writes what the file says item by item and retires what the file no
longer has.  A dry run says beforehand what it would do, from one read.
-/

namespace DbaBrain.Db.ConfigSyncRun

open DbaBrain.Foundation DbaBrain.Foundation.KeyedWrites DbaBrain.Db.ConfigStore DbaBrain.Db.ConfigHistory
  DbaBrain.Db.ConfigRegistry DbaBrain.Db.ConfigSync

/-- Why a record is not stored: the table or the database refuses what is written of it, such as NaN, which `json_valid`
does, or its text holds half a surrogate pair and has no bytes. -/
inductive Beyond
  | refused
  | unencodable

/-- What is at a file's path.  Of an object with records that are not stored, `beyond` says which; the values they are
beyond by stand as others. -/
inductive FileContent
  | missing
  | unreadable (reason : String)
  | object (payload : Dict String Json)
  | unstorable (payload : Dict String Json) (beyond : String × String → Option Beyond)

def FileContent.beyond : FileContent → String × String → Option Beyond
  | .unstorable _ beyond => beyond
  | _ => fun _ => none

inductive Status
  | ok
  | missing
  | failed
  deriving DecidableEq

/-- Why a file is not synced. -/
inductive Failure
  | absent (file : String)
  | refused (reason : SyncError)
  deriving DecidableEq

structure Outcome where
  file : String
  appCode : String
  status : Status
  inserted : Nat
  updated : Nat
  unchanged : Nat
  deactivated : Nat
  missing : Nat
  failed : Nat
  error : Option Failure
  deriving DecidableEq

def blank (spec : SourceSpec) : Outcome where
  file := spec.file
  appCode := spec.appCode
  status := .ok
  inserted := 0
  updated := 0
  unchanged := 0
  deactivated := 0
  missing := 0
  failed := 0
  error := none

def counted (spec : SourceSpec) (actions : List Action) (deactivated : Nat) : Outcome :=
  { blank spec with
    inserted := actions.count .inserted
    updated := actions.count .updated
    unchanged := actions.count .unchanged
    deactivated := deactivated }

/-- The items of a file, or the outcome that says why there are none. -/
def itemsOf (repr : Json → String) (spec : SourceSpec) : FileContent → Except Outcome (List ConfigItem)
  | .missing => .error { blank spec with status := .missing, missing := 1, error := some (.absent spec.file) }
  | .unreadable reason =>
      .error { blank spec with status := .failed, failed := 1, error := some (.refused (.unreadable reason)) }
  | .object payload | .unstorable payload _ =>
      match splitPayload repr spec payload with
      | .error reason => .error { blank spec with status := .failed, failed := 1, error := some (.refused reason) }
      | .ok items => .ok items

/-! ## Writing -/

def after (calls : Nat) (clock : Nat → Nat → String) : Nat → Nat → String := fun call => clock (calls + call)

/-- `ensure_collection` of the declared collections, numbered from an index on. -/
def ensureCollections (sourceFile : String) (clock : Nat → Nat → String) :
    Store → Nat → List CollectionSpec → Except StoreError Store
  | store, _, [] => .ok store
  | store, index, collection :: rest =>
      match ensureCollection store sourceFile collection.collection collection.keyFields collection.labelField index
          (clock index) with
      | .error reason => .error reason
      | .ok next => ensureCollections sourceFile clock next (index + 1) rest

def ensureAll (store : Store) (spec : SourceSpec) (clock : Nat → Nat → String) : Except StoreError Store :=
  match ensureSource store spec.file spec.appCode spec.displayName spec.description (clock 0) with
  | .error reason => .error reason
  | .ok sourced =>
      match ensureCollection sourced spec.file documentCollection [documentKey] "" spec.collections.length (clock 1) with
      | .error reason => .error reason
      | .ok documented => ensureCollections spec.file (after 2 clock) documented 0 spec.collections

/-- `upsert_item` of every item, and what each did. -/
def upsertAll (digest : String → String) (beyond : String × String → Option Beyond) (actor : String) :
    (Nat → Nat → String) → Store → List ConfigItem → Except StoreError (Store × List Action)
  | _, store, [] => .ok (store, [])
  | clock, store, item :: rest =>
      if (beyond item.key).isSome then .error .refused
      else
      match upsertItem digest store item ⟨actor, "", clock 0⟩ with
      | .error reason => .error reason
      | .ok (next, _, action) =>
          match upsertAll digest beyond actor (after 1 clock) next rest with
          | .error reason => .error reason
          | .ok (last, actions) => .ok (last, action :: actions)

/-- `deactivate_item` of every key. -/
def deactivateAll (sourceFile actor : String) :
    (Nat → Nat → String) → Store → List (String × String) → Except StoreError Store
  | _, store, [] => .ok store
  | clock, store, key :: rest =>
      match deactivateItem store sourceFile key.1 key.2
          ⟨actor, "No longer present in " ++ sourceFile ++ ".", clock 0⟩ with
      | .error reason => .error reason
      | .ok (next, _) => deactivateAll sourceFile actor (after 1 clock) next rest

/-- The keys of a file's rows that are not among the items. -/
def goneKeys (store : Store) (sourceFile : String) (items : List ConfigItem) : List (String × String) :=
  ((store.listItems sourceFile).map Listed.key).filter fun key => key ∉ items.map ConfigItem.key

def syncOne (digest : String → String) (repr : Json → String) (store : Store) (spec : SourceSpec)
    (content : FileContent) (actor : String) (clock : Nat → Nat → String) : Except StoreError (Store × Outcome) :=
  match itemsOf repr spec content with
  | .error outcome => .ok (store, outcome)
  | .ok items =>
      match ensureAll store spec clock with
      | .error reason => .error reason
      | .ok registered =>
          let calls := 2 + spec.collections.length
          match upsertAll digest content.beyond actor (after calls clock) registered items with
          | .error reason => .error reason
          | .ok (written, actions) =>
              let gone := goneKeys written spec.file items
              match deactivateAll spec.file actor (after (calls + items.length) clock) written gone with
              | .error reason => .error reason
              | .ok last => .ok (last, counted spec actions gone.length)

/-! ## Planning -/

/-- What is planned for an item, by the row its key has.  The hash of a text without bytes raises, and that of a text
the table refuses is no row's. -/
def planned (digest : String → String) (beyond : Option Beyond) (row : Option ItemRow) (item : ConfigItem) :
    Option Action :=
  match row, beyond with
  | none, _ => some .inserted
  | some row, none => some (if saysSame digest row item then .unchanged else .updated)
  | some _, some .refused => some .updated
  | some _, some .unencodable => none

def planOnly (digest : String → String) (beyond : String × String → Option Beyond) (store : Store) (spec : SourceSpec)
    (items : List ConfigItem) : Option Outcome :=
  let existing := Dict.empty.update ((store.listItems spec.file).map fun listed => (listed.key, listed.row))
  (items.mapM fun item => planned digest (beyond item.key) (existing.get? item.key) item).map fun actions =>
    counted spec actions
      ((existing.entries.map Prod.fst).filter fun key => key ∉ items.map ConfigItem.key).length

/-- `_sync_one` of a dry run. -/
def dryRun (digest : String → String) (repr : Json → String) (store : Store) (spec : SourceSpec)
    (content : FileContent) : Option Outcome :=
  match itemsOf repr spec content with
  | .error outcome => some outcome
  | .ok items => planOnly digest content.beyond store spec items

/-! ## What is held of a file -/

def heldFaces (store : Store) (sourceFile : String) : String × String → Option Face := fun key =>
  (store.getItem sourceFile key).map ItemRow.face

def entriesOf (digest : String → String) (items : List ConfigItem) : List ((String × String) × Face) :=
  items.map fun item => (item.key, item.face digest)

section Reads

variable {digest : String → String} {store next : Store} {sourceFile : String} {key : String × String}
  {items : List ConfigItem}

theorem mem_listedKeys_iff (named : sourceFile ≠ "") :
    key ∈ (store.listItems sourceFile).map Listed.key ↔ (heldFaces store sourceFile key).isSome = true := by
  rw [heldFaces, Option.isSome_map, Option.isSome_iff_exists, List.mem_map]
  constructor
  · rintro ⟨listed, member, same⟩
    exact ⟨listed.row, (mem_listItems_iff named).mp ⟨listed, member, same, rfl⟩⟩
  · rintro ⟨row, held⟩
    obtain ⟨listed, member, same, _⟩ := (mem_listItems_iff named).mpr held
    exact ⟨listed, member, same⟩

theorem mem_goneKeys_iff (named : sourceFile ≠ "") :
    key ∈ goneKeys store sourceFile items ↔
      (heldFaces store sourceFile key).isSome = true ∧ key ∉ items.map ConfigItem.key := by
  rw [goneKeys, List.mem_filter, mem_listedKeys_iff named, decide_eq_true_eq]

theorem goneKeys_nodup (named : sourceFile ≠ "") : (goneKeys store sourceFile items).Nodup :=
  (listItems_keys_nodup named).sublist List.filter_sublist

theorem get?_existing (named : sourceFile ≠ "") :
    (Dict.empty.update ((store.listItems sourceFile).map fun listed => (listed.key, listed.row))).get? key =
      store.getItem sourceFile key := by
  have keys : (((store.listItems sourceFile).map fun listed => (listed.key, listed.row)).map Prod.fst).Nodup := by
    rw [List.map_map]
    exact listItems_keys_nodup named
  rw [Dict.get?_update Dict.empty ⟨_, keys⟩, Dict.get?_empty, Option.or_none]
  refine Option.ext fun row => ?_
  rw [Dict.get?_eq_some_iff, ← mem_listItems_iff named, List.mem_map]
  simp only [Prod.mk.injEq]

theorem planned_eq_action (row : Option ItemRow) (item : ConfigItem) :
    planned digest none row item = some (KeyedWrites.action (row.map ItemRow.face) (item.face digest)) := by
  cases row with
  | none => rfl
  | some row =>
    rw [planned, Option.map_some, KeyedWrites.action]
    exact congrArg some (if_congr saysSame_iff rfl rfl)

/-- A dry run plans from what is held. -/
theorem planOnly_eq (digest : String → String) {beyond : String × String → Option Beyond} (store : Store)
    (spec : SourceSpec) (storable : ∀ item ∈ items, beyond item.key = none) :
    planOnly digest beyond store spec items =
      some (counted spec (plan (heldFaces store spec.file) (entriesOf digest items))
        (goneKeys store spec.file items).length) := by
  have told : (items.mapM fun item => planned digest (beyond item.key) (store.getItem spec.file item.key) item) =
      some (plan (heldFaces store spec.file) (entriesOf digest items)) := by
    induction items with
    | nil => rfl
    | cons item rest ih =>
      obtain ⟨first, storable⟩ := List.forall_mem_cons.mp storable
      rw [List.mapM_cons, ih storable, first, planned_eq_action]
      rfl
  rw [planOnly]
  simp only [get?_existing spec.named, told, Option.map_some]
  congr 2
  refine ((List.perm_ext_iff_of_nodup ?_ (goneKeys_nodup spec.named)).mpr fun key => ?_).length_eq
  · exact (Dict.nodup _).filter _
  · rw [List.mem_filter, Dict.mem_keys_iff, get?_existing spec.named, mem_goneKeys_iff spec.named, heldFaces,
      Option.isSome_map, decide_eq_true_eq]

end Reads

/-! ## What the writes do -/

section Writes

variable {digest : String → String} {store next : Store} {sourceFile : String} {items : List ConfigItem}

theorem Persists.known (persists : Persists store next)
    (known : ∃ source ∈ store.sources.rows, source.sourceFile = sourceFile) :
    ∃ source ∈ next.sources.rows, source.sourceFile = sourceFile := by
  obtain ⟨source, member, same⟩ := known
  obtain ⟨kept, held, again⟩ := persists.sources _ source (Table.lookup_of_mem member)
  exact ⟨kept, Table.mem_of_lookup held, again.trans same⟩

theorem Persists.registered (persists : Persists store next) {collection : String}
    (registered : (store.collectionId sourceFile collection).isSome = true) :
    (next.collectionId sourceFile collection).isSome = true := by
  obtain ⟨collectionId, found⟩ := Option.isSome_iff_exists.mp registered
  exact Option.isSome_iff_exists.mpr ⟨collectionId, persists.collectionId_eq found⟩

theorem Persists.heldFaces (persists : Persists store next) (ready : Ready digest store) :
    heldFaces next sourceFile = heldFaces store sourceFile := by
  funext key
  rw [ConfigSyncRun.heldFaces, persists.getItem ready.linked, ConfigSyncRun.heldFaces]

theorem ensureCollections_isOk (ready : Ready digest store)
    (known : ∃ source ∈ store.sources.rows, source.sourceFile = sourceFile) (clock : Nat → Nat → String) (index : Nat)
    (collections : List CollectionSpec) :
    ∃ next, ensureCollections sourceFile clock store index collections = .ok next ∧ Persists store next ∧
      Ready digest next ∧
        ∀ name ∈ collections.map CollectionSpec.collection, (next.collectionId sourceFile name).isSome = true := by
  induction collections generalizing store index with
  | nil => exact ⟨store, rfl, Persists.refl store, ready, nofun⟩
  | cons collection rest ih =>
    obtain ⟨middle, ensured, persists, linked, own⟩ := ensureCollection_isOk ready.linked known collection.collection
      collection.keyFields collection.labelField index (clock index)
    obtain ⟨last, others, persistsLast, readyLast, registered⟩ :=
      ih (ready.of_persists persists linked) (Persists.known persists known) (index + 1)
    refine ⟨last, ?_, persists.trans persistsLast, readyLast, ?_⟩
    · rw [ensureCollections, ensured]
      exact others
    · exact List.forall_mem_cons.mpr ⟨Persists.registered persistsLast own, registered⟩

/-- Registering a file with its collections is never refused, and loses nothing. -/
theorem ensureAll_isOk (ready : Ready digest store) (spec : SourceSpec) (clock : Nat → Nat → String) :
    ∃ next, ensureAll store spec clock = .ok next ∧ Persists store next ∧ Ready digest next ∧
      ∀ name, name = documentCollection ∨ name ∈ spec.names → (next.collectionId spec.file name).isSome = true := by
  obtain ⟨sourced, first, persists, linked, known⟩ :=
    ensureSource_isOk ready.linked spec.file spec.appCode spec.displayName spec.description (clock 0)
  have readySourced := ready.of_persists persists linked
  obtain ⟨documented, second, persistsNext, linkedNext, own⟩ := ensureCollection_isOk linked known documentCollection
    [documentKey] "" spec.collections.length (clock 1)
  obtain ⟨last, third, persistsLast, readyLast, registered⟩ := ensureCollections_isOk
    (readySourced.of_persists persistsNext linkedNext) (Persists.known persistsNext known) (after 2 clock) 0
    spec.collections
  refine ⟨last, ?_, (persists.trans persistsNext).trans persistsLast, readyLast, ?_⟩
  · rw [ensureAll, first]
    simp only [second]
    exact third
  · rintro name (rfl | declared)
    · exact Persists.registered persistsLast own
    · exact registered name declared

variable {beyond : String × String → Option Beyond}

/-- A record that is not stored stops the run. -/
theorem upsertAll_refused {item : ConfigItem} (member : item ∈ items) (refused : (beyond item.key).isSome = true)
    (actor : String) (clock : Nat → Nat → String) :
    ∃ reason, upsertAll digest beyond actor clock store items = .error reason := by
  induction items generalizing store clock with
  | nil => cases member
  | cons first rest ih =>
    rw [upsertAll]
    split
    · exact ⟨_, rfl⟩
    · next stored =>
        rcases List.mem_cons.mp member with rfl | later
        · exact absurd refused stored
        · split
          · exact ⟨_, rfl⟩
          · next next _ action _ =>
              have fails : ∃ reason, upsertAll digest beyond actor (after 1 clock) next rest = .error reason :=
                ih later (after 1 clock)
              obtain ⟨reason, failed⟩ := fails
              exact ⟨reason, by rw [failed]⟩

/-- The items are written one after the other, each over what its key holds. -/
theorem upsertAll_isOk (actor : String) (storable : ∀ item ∈ items, beyond item.key = none) (ready : Ready digest store)
    (own : ∀ item ∈ items, item.sourceFile = sourceFile)
    (registered : ∀ item ∈ items, (store.collectionId sourceFile item.collection).isSome = true)
    (clock : Nat → Nat → String) :
    ∃ next, upsertAll digest beyond actor clock store items =
        .ok (next, replay (heldFaces store sourceFile) (entriesOf digest items)) ∧
      Ready digest next ∧ heldFaces next sourceFile = final (heldFaces store sourceFile) (entriesOf digest items) ∧
      (∀ file collection, next.collectionId file collection = store.collectionId file collection) ∧
      ((∀ done ∈ replay (heldFaces store sourceFile) (entriesOf digest items), done = .unchanged) → next = store) := by
  induction items generalizing store clock with
  | nil => exact ⟨store, rfl, ready, rfl, fun _ _ => rfl, fun _ => rfl⟩
  | cons item rest ih =>
    have file : item.sourceFile = sourceFile := own item List.mem_cons_self
    obtain ⟨collectionId, there⟩ := Option.isSome_iff_exists.mp (registered item List.mem_cons_self)
    obtain ⟨⟨middle, configItemId, action⟩, done⟩ :=
      upsertItem_isOk ready.recorded item ⟨actor, "", clock 0⟩ (file ▸ there)
    obtain ⟨sameIds, told, row, face, holds⟩ := getItem_upsertItem done
    have held : heldFaces middle sourceFile =
        write (heldFaces store sourceFile) (item.key, item.face digest) := by
      funext key
      rw [heldFaces, holds]
      rcases eq_or_ne key item.key with rfl | different
      · rw [if_pos ⟨file.symm, rfl⟩, Option.map_some, face, write_self]
      · rw [if_neg fun both => different both.2, write_of_ne different, heldFaces]
    obtain ⟨stored, storable⟩ := List.forall_mem_cons.mp storable
    obtain ⟨last, others, readyLast, heldLast, sameLast, quiet⟩ := ih storable (ready_upsertItem ready done)
      (fun other member => own other (List.mem_cons_of_mem item member))
      (fun other member => by rw [sameIds]; exact registered other (List.mem_cons_of_mem item member))
      (after 1 clock)
    rw [file, ← heldFaces] at told
    rw [held] at others heldLast quiet
    refine ⟨last, ?_, readyLast, heldLast, fun file collection => (sameLast file collection).trans (sameIds file collection),
      fun unchanged => ?_⟩
    · rw [upsertAll, stored, Option.isSome_none, if_neg Bool.false_ne_true, done]
      simp only [others]
      rw [told]
      rfl
    · obtain ⟨first, later⟩ := List.forall_mem_cons.mp unchanged
      rw [quiet later]
      obtain ⟨_, _, ⟨_, rfl, _⟩ | ⟨_, _, ⟨_, _, same⟩ | ⟨_, rfl, _⟩⟩⟩ := upsertItem_cases done
      · cases told.trans first
      · exact same
      · cases told.trans first

/-- The keys are retired, and no other. -/
theorem deactivateAll_isOk (actor : String) (ready : Ready digest store) {keys : List (String × String)}
    (registered : ∀ key ∈ keys, (store.collectionId sourceFile key.1).isSome = true) (clock : Nat → Nat → String) :
    ∃ next, deactivateAll sourceFile actor clock store keys = .ok next ∧ Ready digest next ∧
      ∀ key, next.getItem sourceFile key = if key ∈ keys then none else store.getItem sourceFile key := by
  induction keys generalizing store clock with
  | nil => exact ⟨store, rfl, ready, fun key => (if_neg List.not_mem_nil).symm⟩
  | cons head rest ih =>
    obtain ⟨collectionId, there⟩ := Option.isSome_iff_exists.mp (registered head List.mem_cons_self)
    obtain ⟨⟨middle, retired⟩, done⟩ := deactivateItem_isOk ready.recorded sourceFile head.1 head.2
      ⟨actor, "No longer present in " ++ sourceFile ++ ".", clock 0⟩ there
    obtain ⟨sameIds, holds⟩ := getItem_deactivateItem done
    obtain ⟨last, others, readyLast, gone⟩ := ih (ready_deactivateItem ready done)
      (fun key member => by rw [sameIds]; exact registered key (List.mem_cons_of_mem head member)) (after 1 clock)
    refine ⟨last, ?_, readyLast, fun key => ?_⟩
    · rw [deactivateAll, done]
      exact others
    · rw [gone, holds]
      rcases eq_or_ne key head with rfl | different
      · simp
      · simp [different]

end Writes

/-! ## The whole sync -/

section Sync

variable {digest : String → String} {repr : Json → String} {store : Store} {spec : SourceSpec} {content : FileContent}
  {items : List ConfigItem}

theorem split_of_itemsOf (read : itemsOf repr spec content = .ok items) :
    ∃ payload, splitPayload repr spec payload = .ok items := by
  have split {payload : Dict String Json} (read : itemsOf repr spec (.object payload) = .ok items) :
      splitPayload repr spec payload = .ok items := by
    rw [itemsOf] at read
    split at read
    · cases read
    · rename_i split
      cases read
      exact split
  cases content with
  | missing => cases read
  | unreadable reason => cases read
  | object payload => exact ⟨payload, split read⟩
  | unstorable payload beyond => exact ⟨payload, split read⟩

/-- A sync of records that are stored is never refused: it does to every item what a replay does, retires the keys that
are gone, and leaves what the last value of each key says. -/
theorem syncOne_isOk (ready : Ready digest store) (read : itemsOf repr spec content = .ok items)
    (storable : ∀ item ∈ items, content.beyond item.key = none) (actor : String) (clock : Nat → Nat → String) :
    ∃ last, syncOne digest repr store spec content actor clock =
        .ok (last, counted spec (replay (heldFaces store spec.file) (entriesOf digest items))
          (goneKeys store spec.file items).length) ∧
      Ready digest last ∧
      (∀ key, heldFaces last spec.file key = if key ∈ items.map ConfigItem.key then
        final (heldFaces store spec.file) (entriesOf digest items) key else none) ∧
      ((∀ done ∈ replay (heldFaces store spec.file) (entriesOf digest items), done = .unchanged) →
        goneKeys store spec.file items = [] → last.items = store.items ∧ last.revisions = store.revisions) := by
  obtain ⟨payload, split⟩ := split_of_itemsOf read
  obtain ⟨registered, ensured, persists, readyNext, known⟩ := ensureAll_isOk ready spec clock
  have same : heldFaces registered spec.file = heldFaces store spec.file := Persists.heldFaces persists ready
  obtain ⟨written, upserted, readyWritten, heldWritten, sameIds, quiet⟩ := upsertAll_isOk actor storable readyNext
    (fun item member => (mem_split split member).1.1)
    (fun item member => known _ (mem_split split member).2) (after (2 + spec.collections.length) clock)
  rw [same] at upserted heldWritten quiet
  have inIds : ∀ key ∈ goneKeys written spec.file items, (written.collectionId spec.file key.1).isSome = true := by
    intro key member
    obtain ⟨held, _⟩ := (mem_goneKeys_iff spec.named).mp member
    rw [heldFaces, Option.isSome_map, Store.getItem] at held
    exact Option.isSome_of_isSome_bind held
  obtain ⟨last, retired, readyLast, gone⟩ := deactivateAll_isOk actor readyWritten inIds
    (after (2 + spec.collections.length + items.length) clock)
  have unwritten : ∀ key ∉ items.map ConfigItem.key,
      heldFaces written spec.file key = heldFaces store spec.file key := by
    intro key absent
    rw [heldWritten]
    refine final_of_not_mem fun entry member same => absent ?_
    obtain ⟨item, present, rfl⟩ := List.mem_map.mp member
    exact same ▸ List.mem_map_of_mem present
  have sameGone : (goneKeys written spec.file items).Perm (goneKeys store spec.file items) := by
    refine (List.perm_ext_iff_of_nodup (goneKeys_nodup spec.named) (goneKeys_nodup spec.named)).mpr fun key => ?_
    rw [mem_goneKeys_iff spec.named, mem_goneKeys_iff spec.named]
    refine and_congr_left fun absent => ?_
    rw [unwritten key absent]
  refine ⟨last, ?_, readyLast, fun key => ?_, fun unchanged nothing => ?_⟩
  · rw [syncOne, read]
    simp only [ensured, upserted, retired, sameGone.length_eq]
  · rw [heldFaces, gone]
    split
    · rename_i member
      rw [if_neg ((mem_goneKeys_iff spec.named).mp member).2]
      rfl
    · rename_i kept
      split
      · rw [← heldWritten, heldFaces]
      · rename_i absent
        rw [mem_goneKeys_iff spec.named, and_iff_left absent, heldFaces, Option.isSome_map, Option.not_isSome_iff_eq_none]
          at kept
        rw [kept]
        rfl
  · have none_gone : goneKeys written spec.file items = [] := by
      rw [nothing] at sameGone
      exact sameGone.eq_nil
    rw [none_gone] at retired
    cases retired
    rw [quiet unchanged]
    exact ⟨persists.items, persists.revisions⟩

/-- The dry run says what the run does, and a run right after it finds every item unchanged and writes
neither item nor revision. -/
def TellsTruth (digest : String → String) (repr : Json → String) (store : Store) (spec : SourceSpec)
    (content : FileContent) (actor : String) (clock again : Nat → Nat → String) : Prop :=
  ∃ next outcome last second, syncOne digest repr store spec content actor clock = .ok (next, outcome) ∧
    dryRun digest repr store spec content = some outcome ∧
    syncOne digest repr next spec content actor again = .ok (last, second) ∧
    second.inserted = 0 ∧ second.updated = 0 ∧ second.deactivated = 0 ∧
    second.unchanged = outcome.inserted + outcome.updated + outcome.unchanged ∧
    last.items = next.items ∧ last.revisions = next.revisions

/-- Two records of the file with one collection and key are both what its active row says. -/
def NoTwoValues (digest : String → String) (repr : Json → String) (store : Store) (spec : SourceSpec)
    (content : FileContent) : Prop :=
  ∀ items, itemsOf repr spec content = .ok items →
    Settled (heldFaces store spec.file) (entriesOf digest items)

/-- Every record of the file is stored. -/
def Storable (repr : Json → String) (spec : SourceSpec) (content : FileContent) : Prop :=
  ∀ items, itemsOf repr spec content = .ok items → ∀ item ∈ items, content.beyond item.key = none

theorem itemsOf_error {outcome : Outcome} (read : itemsOf repr spec content = .error outcome) :
    outcome.inserted = 0 ∧ outcome.updated = 0 ∧ outcome.unchanged = 0 ∧ outcome.deactivated = 0 := by
  fun_cases itemsOf repr spec content with
  | case1 | case2 =>
    cases read
    exact ⟨rfl, rfl, rfl, rfl⟩
  | case3 payload reason split | case5 payload _ reason split =>
    rw [itemsOf, split] at read
    cases read
    exact ⟨rfl, rfl, rfl, rfl⟩
  | case4 payload items split | case6 payload _ items split =>
    rw [itemsOf, split] at read
    cases read

/-- A second sync does to every item what a second replay does, and retires nothing. -/
theorem syncOne_again (ready : Ready digest store) (read : itemsOf repr spec content = .ok items)
    (storable : ∀ item ∈ items, content.beyond item.key = none) (actor : String) (clock again : Nat → Nat → String) :
    ∃ next last, syncOne digest repr store spec content actor clock =
        .ok (next, counted spec (replay (heldFaces store spec.file) (entriesOf digest items))
          (goneKeys store spec.file items).length) ∧
      syncOne digest repr next spec content actor again =
        .ok (last, counted spec
          (replay (final (heldFaces store spec.file) (entriesOf digest items)) (entriesOf digest items)) 0) ∧
      ((∀ done ∈ replay (final (heldFaces store spec.file) (entriesOf digest items)) (entriesOf digest items),
        done = .unchanged) → last.items = next.items ∧ last.revisions = next.revisions) := by
  obtain ⟨next, first, readyNext, held, _⟩ := syncOne_isOk ready read storable actor clock
  obtain ⟨last, second, _, _, quiet⟩ := syncOne_isOk readyNext read storable actor again
  have same : replay (heldFaces next spec.file) (entriesOf digest items) =
      replay (final (heldFaces store spec.file) (entriesOf digest items)) (entriesOf digest items) := by
    refine replay_congr fun entry member => ?_
    obtain ⟨item, present, rfl⟩ := List.mem_map.mp member
    rw [held, if_pos (List.mem_map_of_mem present)]
  have nothing : goneKeys next spec.file items = [] := by
    refine List.eq_nil_iff_forall_not_mem.mpr fun key member => ?_
    obtain ⟨present, absent⟩ := (mem_goneKeys_iff spec.named).mp member
    rw [held, if_neg absent] at present
    cases present
  rw [same] at second quiet
  rw [nothing] at second
  exact ⟨next, last, first, second, fun unchanged => quiet unchanged nothing⟩

variable {actor : String} {clock again : Nat → Nat → String}

theorem TellsTruth.counts (truthful : TellsTruth digest repr store spec content actor clock again)
    (ready : Ready digest store) (read : itemsOf repr spec content = .ok items)
    (storable : ∀ item ∈ items, content.beyond item.key = none) :
    (∀ kind, (replay (heldFaces store spec.file) (entriesOf digest items)).count kind =
      (plan (heldFaces store spec.file) (entriesOf digest items)).count kind) ∧
    ∀ done ∈ replay (final (heldFaces store spec.file) (entriesOf digest items)) (entriesOf digest items),
      done = .unchanged := by
  obtain ⟨next, last, first, second, _⟩ := syncOne_again ready read storable actor clock again
  obtain ⟨next', outcome, last', again', sync, told, resync, inserted, updated, _⟩ := truthful
  obtain ⟨rfl, rfl⟩ := Prod.mk.inj (Except.ok.inj (first.symm.trans sync))
  obtain ⟨rfl, rfl⟩ := Prod.mk.inj (Except.ok.inj (second.symm.trans resync))
  rw [dryRun, read] at told
  simp only [planOnly_eq digest store spec storable, Option.some_inj] at told
  refine ⟨fun kind => ?_, all_unchanged_of_count inserted updated⟩
  cases kind with
  | inserted => exact (congrArg Outcome.inserted told).symm
  | updated => exact (congrArg Outcome.updated told).symm
  | unchanged => exact (congrArg Outcome.unchanged told).symm

/-- Of a sync that returns every record is stored. -/
theorem TellsTruth.storable (truthful : TellsTruth digest repr store spec content actor clock again) :
    Storable repr spec content := by
  intro items read item member
  by_contra refused
  obtain ⟨next, outcome, last, second, sync, -⟩ := truthful
  rw [syncOne, read] at sync
  simp only at sync
  split at sync
  · cases sync
  · next registered _ =>
      have stops : ∃ reason, upsertAll digest content.beyond actor (after (2 + spec.collections.length) clock)
          registered items = .error reason := upsertAll_refused member (Option.isSome_iff_ne_none.mpr refused) _ _
      obtain ⟨reason, stopped⟩ := stops
      rw [stopped] at sync
      cases sync

/-- A dry run of any file against the store any calls left tells the truth exactly when every record of the file is
stored and no two with one collection and key say two things, or one that is new. -/
theorem dry_run_tells_truth_iff (digest : String → String) (repr : Json → String) (labels : List Label)
    (spec : SourceSpec) (content : FileContent) (actor : String) (clock again : Nat → Nat → String) :
    TellsTruth digest repr (run digest Store.empty labels) spec content actor clock again ↔
      NoTwoValues digest repr (run digest Store.empty labels) spec content ∧ Storable repr spec content := by
  have ready := ready_run digest labels
  cases read : itemsOf repr spec content with
  | error outcome =>
      have skipped : ∀ store clock, syncOne digest repr store spec content actor clock = .ok (store, outcome) := by
        intro store clock
        rw [syncOne, read]
      obtain ⟨inserted, updated, unchanged, deactivated⟩ := itemsOf_error read
      refine iff_of_true ?_ ⟨?_, ?_⟩
      · refine ⟨_, outcome, _, outcome, skipped _ clock, by rw [dryRun, read], skipped _ again, inserted, updated,
          deactivated, ?_, rfl, rfl⟩
        omega
      · intro items there
        rw [read] at there
        cases there
      · intro items there
        rw [read] at there
        cases there
  | ok items =>
      have settled : NoTwoValues digest repr (run digest Store.empty labels) spec content ↔
          Settled (heldFaces (run digest Store.empty labels) spec.file) (entriesOf digest items) := by
        refine ⟨fun all => all items read, fun one others there => ?_⟩
        obtain rfl := Except.ok.inj (read.symm.trans there)
        exact one
      rw [settled, ← plan_counts_iff]
      constructor
      · intro truthful
        exact ⟨truthful.counts ready read (truthful.storable items read), truthful.storable⟩
      · rintro ⟨⟨counts, unchanged⟩, storable⟩
        obtain ⟨next, last, first, second, quiet⟩ := syncOne_again ready read (storable items read) actor clock again
        obtain ⟨sameItems, sameRevisions⟩ := quiet unchanged
        refine ⟨next, _, last, _, first, ?_, second, ?_, ?_, rfl, ?_, sameItems, sameRevisions⟩
        · rw [dryRun, read]
          simp only [planOnly_eq digest _ spec (storable items read)]
          rw [counted, counted, counts, counts, counts]
        · exact List.count_eq_zero.mpr fun member => by cases unchanged _ member
        · exact List.count_eq_zero.mpr fun member => by cases unchanged _ member
        · refine Eq.trans ?_ (count_total _).symm
          have whole := List.count_eq_length.mpr fun done member => (unchanged done member).symm
          rw [length_replay] at whole ⊢
          exact whole

def twiceDeclared : SourceSpec :=
  let metrics : CollectionSpec := ⟨"metrics", ["metric_code"], "", by decide, by decide, by decide⟩
  ⟨"metrics.json", "METRICS", "Metrics", "", [metrics, metrics], by decide⟩

def oneMetric : Dict String Json := Dict.empty.set "metrics" (.array [.object [("metric_code", .string "cpu")]])

/-- Of a collection declared twice, each new record is planned twice and inserted once. -/
theorem dry_run_counts_twice :
    ¬ ∀ (digest : String → String) (repr : Json → String) (labels : List Label) (spec : SourceSpec)
      (content : FileContent) (actor : String) (clock again : Nat → Nat → String),
      TellsTruth digest repr (run digest Store.empty labels) spec content actor clock again := by
  intro truthful
  have told := truthful id (fun _ => "") [] twiceDeclared (.object oneMetric) "ops" (fun _ _ => "") (fun _ _ => "")
  have inserts : (itemsOf (fun _ => "") twiceDeclared (.object oneMetric)).map (fun items =>
      ((replay (heldFaces Store.empty twiceDeclared.file) (entriesOf id items)).count .inserted,
        (plan (heldFaces Store.empty twiceDeclared.file) (entriesOf id items)).count .inserted)) = .ok (2, 3) := by
    decide +kernel
  cases read : itemsOf (fun _ => "") twiceDeclared (.object oneMetric) with
  | error outcome =>
      rw [read] at inserts
      cases inserts
  | ok items =>
      rw [read] at inserts
      obtain ⟨two, three⟩ := Prod.mk.inj (Except.ok.inj inserts)
      have counts := (told.counts (ready_run id []) read fun _ _ => rfl).1 .inserted
      exact absurd (two.symm.trans (counts.trans three)) (by decide)

end Sync

end DbaBrain.Db.ConfigSyncRun
