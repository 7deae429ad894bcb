import DbaBrain.Db.ConfigExport

/-!
# Editing one record

An edit writes the record's row and then the whole file from the store: it
changes that record of what the store has, and nothing else of it.
-/

namespace DbaBrain.Db.ConfigEdit

open DbaBrain.Foundation DbaBrain.Foundation.KeyedWrites DbaBrain.Foundation.Selection DbaBrain.Db.ConfigStore
  DbaBrain.Db.ConfigHistory DbaBrain.Db.ConfigRegistry DbaBrain.Db.ConfigSync DbaBrain.Db.ConfigSyncRun
  DbaBrain.Db.ConfigExport

/-- Why a change cannot be made as asked. -/
inductive EditError
  | notCatalogued (sourceFile : String) (catalogued : List String)
  | notCollection (collection file : String) (collections : List String)
  | notObject
  | recordsInDocument (clash : List String) (file : String)
  | noField (collection fieldName : String) (keys : List String)
  | otherKey (itemKey targetKey : String) (keyFields : List String)
  | alreadyThere (targetKey file collection : String)
  | literalSecret (place child : String)
  | documentRow (file : String)
  | noRecord (itemKey file collection : String)
  | store (reason : StoreError)

def specFor (catalog : List SourceSpec) (sourceFile : String) : Except EditError SourceSpec :=
  match catalog.find? fun spec => spec.file = sourceFile with
  | some spec => .ok spec
  | none => .error (.notCatalogued sourceFile (sortedBy id (catalog.map SourceSpec.file)))

def collectionSpec (spec : SourceSpec) (collection : String) : Except EditError (Option CollectionSpec) :=
  if collection = documentCollection then .ok none
  else
    match spec.collections.find? fun declared => declared.collection = collection with
    | some declared => .ok (some declared)
    | none => .error (.notCollection collection spec.file spec.names)

/-- `_position_for`: the place the record has, or the one after the last. -/
def positionFor (store : Store) (sourceFile collection itemKey : String) : Int :=
  let rows := (store.listItems sourceFile).filter fun listed => listed.collection.collection = collection
  match rows.find? fun listed => listed.row.itemKey = itemKey with
  | some listed => listed.row.itemOrd
  | none => rows.foldl (fun highest listed => max highest listed.row.itemOrd) (-1) + 1

def labelFor (repr : Json → String) (spec : SourceSpec) (column : Option CollectionSpec)
    (record : List (String × Json)) : String :=
  match column with
  | none => if spec.displayName = "" then spec.file else spec.displayName
  | some declared => labelOf repr declared.labelField record

/-- The key the record gets, where it may be saved. -/
def targetKey (repr : Json → String) (store : Store) (spec : SourceSpec) (collection : String)
    (column : Option CollectionSpec) (record : List (String × Json)) (itemKey : Option String) :
    Except EditError String :=
  match column with
  | none =>
      let clash := sortedBy id (spec.names.dedup.filter fun name => name ∈ record.map Prod.fst)
      if clash = [] then .ok documentKey else .error (.recordsInDocument clash spec.file)
  | some declared =>
      match keyFor repr declared.keyFields record with
      | .error missing => .error (.noField declared.collection missing (sortedBy id (record.map Prod.fst)))
      | .ok target =>
          match itemKey with
          | some asked => if asked = target then .ok target else .error (.otherKey asked target declared.keyFields)
          | none =>
              if (store.getItem spec.file (collection, target)).isSome then
                .error (.alreadyThere target spec.file collection)
              else .ok target

/-- Who asks, for which file, and the clock's readings. -/
structure Request where
  sourceFile : String
  actor : String
  note : String
  clock : Nat → String

inductive EditAction
  | wrote (action : Action)
  | deactivated

/-- What an edit leaves and reports. -/
structure Edited where
  store : Store
  spec : SourceSpec
  collection : String
  itemKey : String
  configItemId : Nat
  action : EditAction
  file : FileContent

section Edits

variable (digest : String → String) (repr : Json → String) (catalog : List SourceSpec) (store : Store)
  (content : FileContent) (request : Request)

def editedItem (spec : SourceSpec) (collection target : String) (column : Option CollectionSpec)
    (record : List (String × Json)) : ConfigItem where
  sourceFile := spec.file
  collection := collection
  itemKey := target
  payload := .object record
  itemOrd := positionFor store spec.file collection target
  label := labelFor repr spec column record
  note := request.note
  metadata := []

/-- `save_record`, with what is at the file's path before it. -/
def saveRecord (collection : String) (payload : Json) (itemKey : Option String) : Except EditError Edited :=
  match specFor catalog request.sourceFile with
  | .error reason => .error reason
  | .ok spec =>
      match collectionSpec spec collection with
      | .error reason => .error reason
      | .ok column =>
          match payload with
          | .object record =>
              match targetKey repr store spec collection column record itemKey with
              | .error reason => .error reason
              | .ok target =>
                  match secretIn "" (.object record) with
                  | some child =>
                      .error (.literalSecret (spec.file ++ ":" ++ collection ++ "[" ++ target ++ "]") child)
                  | none =>
                      match upsertItem digest store (editedItem repr store request spec collection target column record)
                          ⟨request.actor, request.note, request.clock⟩ with
                      | .error reason => .error (.store reason)
                      | .ok (next, configItemId, action) =>
                          .ok ⟨next, spec, collection, target, configItemId, .wrote action, exportFile next spec content⟩
          | _ => .error .notObject

def deleteRecord (collection itemKey : String) : Except EditError Edited :=
  match specFor catalog request.sourceFile with
  | .error reason => .error reason
  | .ok spec =>
      match collectionSpec spec collection with
      | .error reason => .error reason
      | .ok _ =>
          if collection = documentCollection then .error (.documentRow spec.file)
          else
            let operator := if request.actor = "" then "an operator" else request.actor
            let note := if request.note = "" then "Retired from the console by " ++ operator ++ "." else request.note
            match deactivateItem store spec.file collection itemKey ⟨request.actor, note, request.clock⟩ with
            | .error reason => .error (.store reason)
            | .ok (_, none) => .error (.noRecord itemKey spec.file collection)
            | .ok (next, some configItemId) =>
                .ok ⟨next, spec, collection, itemKey, configItemId, .deactivated, exportFile next spec content⟩

inductive Edit
  | save (collection : String) (payload : Json) (itemKey : Option String)
  | delete (collection itemKey : String)

def applyEdit : Edit → Except EditError Edited
  | .save collection payload itemKey => saveRecord digest repr catalog store content request collection payload itemKey
  | .delete collection itemKey => deleteRecord catalog store content request collection itemKey

end Edits

/-! ## What a write leaves of a file's list -/

section Frames

variable {digest : String → String} {store next : Store} {sourceFile : String} {listed : Listed} {item : ConfigItem}
  {call : Call}

theorem mem_listItems_iff_getItem (named : sourceFile ≠ "") :
    listed ∈ store.listItems sourceFile ↔
      store.getItem sourceFile listed.key = some listed.row ∧
        store.collections.lookup listed.row.configCollectionId = some listed.collection ∧
        store.sources.lookup listed.collection.configSourceId = some listed.source ∧
        listed.source.sourceFile = sourceFile := by
  constructor
  · intro member
    obtain ⟨filed, held, _⟩ := listed_of_mem named member
    rw [Store.listItems, mem_sortedBy, List.mem_filterMap] at member
    obtain ⟨row, _, present⟩ := member
    obtain ⟨rfl, _, placed, sourced, _⟩ := (listed_eq_some_iff named).mp present
    exact ⟨held, placed, sourced, filed⟩
  · rintro ⟨held, placed, sourced, filed⟩
    obtain ⟨member, active, _, _⟩ := getItem_eq_some_iff.mp held
    rw [Store.listItems, mem_sortedBy, List.mem_filterMap]
    exact ⟨listed.row, member, (listed_eq_some_iff named).mpr ⟨rfl, active, placed, sourced, filed⟩⟩

theorem listItems_places_nodup (named : sourceFile ≠ "") : ((store.listItems sourceFile).map Listed.place).Nodup := by
  refine List.Nodup.map_on ?_ (listItems_keys_nodup named).of_map
  intro first member second present same
  have sameId : first.row.configItemId = second.row.configItemId :=
    congrArg (fun place => (ofLex (ofLex (ofLex (ofLex (ofLex (ofLex place).2).2).2).2).2).2) same
  obtain ⟨here, placed, sourced, _⟩ := (mem_listItems_iff_getItem named).mp member
  obtain ⟨there, placedToo, sourcedToo, _⟩ := (mem_listItems_iff_getItem named).mp present
  have sameRow := Table.eq_of_key_eq (getItem_eq_some_iff.mp here).1 (getItem_eq_some_iff.mp there).1 sameId
  rw [sameRow, placedToo, Option.some_inj] at placed
  rw [← placed, sourcedToo, Option.some_inj] at sourced
  obtain ⟨source, collection, row⟩ := first
  obtain ⟨otherSource, otherCollection, otherRow⟩ := second
  simp only at sameRow placed sourced
  rw [sameRow, placed, sourced]

/-- The rows whose keys hold what they held are listed as they were. -/
theorem listItems_filter_eq (named : sourceFile ≠ "") (sources : next.sources = store.sources)
    (collections : next.collections = store.collections) (keep : Listed → Bool)
    (same : ∀ listed, keep listed = true → next.getItem sourceFile listed.key = store.getItem sourceFile listed.key) :
    (next.listItems sourceFile).filter keep = (store.listItems sourceFile).filter keep := by
  have sorted (store : Store) : ((store.listItems sourceFile).filter keep).Pairwise fun first second =>
      first.place ≤ second.place := (sortedBy_pairwise Listed.place _).filter keep
  have apart : (((next.listItems sourceFile).filter keep).map Listed.place).Nodup :=
    (listItems_places_nodup named).sublist (List.filter_sublist.map Listed.place)
  refine eq_of_sorted_perm ?_ apart (sorted next) (sorted store)
  refine (List.perm_ext_iff_of_nodup apart.of_map ((listItems_keys_nodup named).of_map.filter keep)).mpr fun listed => ?_
  rw [List.mem_filter, List.mem_filter]
  refine and_congr_left fun kept => ?_
  rw [mem_listItems_iff_getItem named, mem_listItems_iff_getItem named, same listed kept, sources, collections]

theorem upsertItem_frame {configItemId : Nat} {action : Action}
    (done : upsertItem digest store item call = .ok (next, configItemId, action)) :
    next.sources = store.sources ∧ next.collections = store.collections := by
  obtain ⟨_, _, ⟨_, _, wrote⟩ | ⟨_, _, ⟨_, _, rfl⟩ | ⟨_, _, wrote⟩⟩⟩ := upsertItem_cases done
  · exact ⟨wrote.sources, wrote.collections⟩
  · exact ⟨rfl, rfl⟩
  · exact ⟨wrote.sources, wrote.collections⟩

theorem deactivateItem_frame {collection itemKey : String} {retired : Option Nat}
    (done : deactivateItem store sourceFile collection itemKey call = .ok (next, retired)) :
    next.sources = store.sources ∧ next.collections = store.collections := by
  obtain ⟨_, _, ⟨_, _, rfl⟩ | ⟨_, _, _, wrote⟩⟩ := deactivateItem_cases done
  · exact ⟨rfl, rfl⟩
  · exact ⟨wrote.sources, wrote.collections⟩

end Frames

/-! ## What an edit leaves of a file -/

/-- Of a file's items, those of other keys are the same and in the same order, within each array too. -/
structure OthersKept (before after : List ConfigItem) (key : String × String) : Prop where
  items : (after.filter fun item => item.key ≠ key) = before.filter fun item => item.key ≠ key
  arrays : ∀ name, ((sortedBy placeOf (rowsOf after name)).filter fun item => item.key ≠ key) =
    (sortedBy placeOf (rowsOf before name)).filter fun item => item.key ≠ key

/-- The values of the file an edit of a record leaves alone: not the record's array; and for the settings'
own record, the arrays that have a record. -/
def Apart (before : List ConfigItem) (spec : SourceSpec) (key : String × String) (name : String) : Prop :=
  name ≠ key.1 ∧ (key.1 = documentCollection → name ∈ spec.names ∧ rowsOf before name ≠ [])

section Values

variable {before after : List ConfigItem} {key : String × String} {spec : SourceSpec} {name : String}

theorem rowsOf_eq_of_kept (kept : (after.filter fun item => item.key ≠ key) = before.filter fun item => item.key ≠ key)
    (other : name ≠ key.1) : rowsOf after name = rowsOf before name := by
  have through : ∀ items : List ConfigItem,
      rowsOf items name = rowsOf (items.filter fun item => item.key ≠ key) name := by
    intro items
    rw [rowsOf, rowsOf, List.filter_filter]
    refine List.filter_congr fun item _ => ?_
    by_cases own : item.collection = name
    · have different : item.key ≠ key := by
        rintro rfl
        exact other own.symm
      simp [own, different]
    · simp [own]
  rw [through after, kept, ← through before]

/-- What is apart from the edited record is rebuilt as before. -/
theorem OthersKept.get? (kept : OthersKept before after key) (apart : Apart before spec key name) :
    (rebuildPayload spec after).get? name = (rebuildPayload spec before).get? name := by
  have rows := rowsOf_eq_of_kept kept.items apart.1
  rw [get?_rebuildPayload, get?_rebuildPayload, rows]
  split
  · rfl
  · rename_i noRows
    have other : documentCollection ≠ key.1 := fun own => noRows (apart.2 own.symm)
    rw [documentOf, documentOf, rowsOf_eq_of_kept kept.items other]

end Values

section Edits

variable {digest : String → String} {repr : Json → String} {catalog : List SourceSpec} {store next : Store}
  {content : FileContent} {request : Request} {sourceFile : String} {key : String × String}

theorem exportedItems_filter (store : Store) (sourceFile : String) (key : String × String) :
    ((exportedItems store sourceFile).filter fun item => item.key ≠ key) =
      ((store.listItems sourceFile).filter fun listed => listed.key ≠ key).map exportedItem := by
  rw [exportedItems, List.filter_map]
  rfl

/-- A write of one key keeps the file's other items. -/
theorem othersKept (named : sourceFile ≠ "") (frame : next.sources = store.sources ∧ next.collections = store.collections)
    (same : ∀ other, other ≠ key → next.getItem sourceFile other = store.getItem sourceFile other) :
    OthersKept (exportedItems store sourceFile) (exportedItems next sourceFile) key := by
  have items : ((exportedItems next sourceFile).filter fun item => item.key ≠ key) =
      (exportedItems store sourceFile).filter fun item => item.key ≠ key := by
    rw [exportedItems_filter, exportedItems_filter, listItems_filter_eq named frame.1 frame.2]
    intro listed different
    exact same listed.key (of_decide_eq_true different)
  refine ⟨items, fun name => ?_⟩
  rw [← sortedBy_filter, ← sortedBy_filter, rowsOf, rowsOf, List.filter_comm, items, List.filter_comm]

/-! ## Every edit -/

variable {edited : Edited} {collection itemKey : String} {payload : Json} {asked : Option String}

/-- A record that is saved is upserted at its place, and the file exported. -/
theorem saveRecord_eq_ok (done : saveRecord digest repr catalog store content request collection payload asked = .ok edited) :
    ∃ item call configItemId action, item.sourceFile = edited.spec.file ∧
      item.key = (edited.collection, edited.itemKey) ∧ item.payload = payload ∧
      item.itemOrd = positionFor store edited.spec.file edited.collection edited.itemKey ∧
      upsertItem digest store item call = .ok (edited.store, configItemId, action) ∧
      edited.file = exportFile edited.store edited.spec content := by
  rw [saveRecord] at done
  split at done
  · cases done
  · split at done
    · cases done
    · split at done
      · split at done
        · cases done
        · split at done
          · cases done
          · split at done
            · cases done
            · rename_i upserted
              cases done
              exact ⟨_, _, _, _, rfl, rfl, rfl, rfl, upserted, rfl⟩
      · cases done

theorem deleteRecord_eq_ok (done : deleteRecord catalog store content request collection itemKey = .ok edited) :
    ∃ call retired, deactivateItem store edited.spec.file edited.collection edited.itemKey call =
        .ok (edited.store, retired) ∧
      edited.file = exportFile edited.store edited.spec content := by
  rw [deleteRecord] at done
  split at done
  · cases done
  · split at done
    · cases done
    · split at done
      · cases done
      · simp only at done
        split at done
        · cases done
        · cases done
        · rename_i retired
          cases done
          exact ⟨_, _, retired, rfl⟩

/-- What the edit asks for is what the store has of the record: the payload at its place, or nothing. -/
def Own (digest : String → String) (store : Store) (edited : Edited) : Edit → Prop
  | .save _ payload _ => ∃ item ∈ exportedItems edited.store edited.spec.file,
      item.key = (edited.collection, edited.itemKey) ∧ contentHash digest item.payload = contentHash digest payload ∧
        item.itemOrd = positionFor store edited.spec.file edited.collection edited.itemKey
  | .delete _ _ => ∀ item ∈ exportedItems edited.store edited.spec.file,
      item.key ≠ (edited.collection, edited.itemKey)

/-- An edit that is made changes its record of what the store has of the file, and no other; it leaves the
file as the store has it.  Where the file was as the store had it, it keeps all that is apart. -/
structure TouchesOnly (digest : String → String) (store : Store) (content : FileContent) (edit : Edit)
    (edited : Edited) : Prop where
  own : Own digest store edited edit
  others : OthersKept (exportedItems store edited.spec.file) (exportedItems edited.store edited.spec.file)
    (edited.collection, edited.itemKey)
  file : edited.file = exportFile edited.store edited.spec content
  inSync : ∀ onDisk, content = .object onDisk →
    Dict.Same onDisk (rebuildPayload edited.spec (exportedItems store edited.spec.file)) →
      ∃ written, edited.file = .object written ∧ ∀ name,
        Apart (exportedItems store edited.spec.file) edited.spec (edited.collection, edited.itemKey) name →
          written.get? name = onDisk.get? name

theorem exportFile_inSync (others : OthersKept (exportedItems store edited.spec.file)
      (exportedItems edited.store edited.spec.file) (edited.collection, edited.itemKey))
    (file : edited.file = exportFile edited.store edited.spec content) (onDisk : Dict String Json)
    (there : content = .object onDisk)
    (same : Dict.Same onDisk (rebuildPayload edited.spec (exportedItems store edited.spec.file))) :
    ∃ written, edited.file = .object written ∧ ∀ name,
      Apart (exportedItems store edited.spec.file) edited.spec (edited.collection, edited.itemKey) name →
        written.get? name = onDisk.get? name := by
  rw [file, exportFile, exported]
  by_cases nothing : exportedItems edited.store edited.spec.file = []
  · rw [if_pos nothing]
    exact ⟨onDisk, there, fun _ _ => rfl⟩
  · rw [if_neg nothing]
    exact ⟨_, rfl, fun name apart => (others.get? apart).trans (same name).symm⟩

/-- The edits of a record touch only it, in the store any calls left and with anything at the file's path. -/
def EditsTouchOnly (digest : String → String) (repr : Json → String) (catalog : List SourceSpec) (store : Store)
    (content : FileContent) (request : Request) : Prop :=
  ∀ edit edited, applyEdit digest repr catalog store content request edit = .ok edited →
    TouchesOnly digest store content edit edited

theorem edits_touch_only (digest : String → String) (repr : Json → String) (catalog : List SourceSpec)
    (labels : List Label) (content : FileContent) (request : Request) :
    EditsTouchOnly digest repr catalog (run digest Store.empty labels) content request := by
  intro edit edited done
  have ready := ready_run digest labels
  cases edit with
  | save collection payload asked =>
      obtain ⟨item, call, configItemId, action, filed, sameKey, rfl, place, upserted, file⟩ := saveRecord_eq_ok done
      obtain ⟨_, _, row, face, holds⟩ := getItem_upsertItem upserted
      have others : OthersKept (exportedItems _ edited.spec.file) (exportedItems edited.store edited.spec.file)
          (edited.collection, edited.itemKey) := othersKept edited.spec.named (upsertItem_frame upserted)
        fun other different => by rw [holds, sameKey, if_neg fun both => different both.2]
      refine ⟨?_, others, file, exportFile_inSync others file⟩
      have held : edited.store.getItem edited.spec.file (edited.collection, edited.itemKey) = some row := by
        rw [holds, if_pos ⟨filed.symm, sameKey.symm⟩]
      obtain ⟨listed, member, listedKey, rfl⟩ := (mem_listItems_iff edited.spec.named).mpr held
      refine ⟨exportedItem listed, List.mem_map_of_mem member, listedKey, ?_, ?_⟩
      · have hashed := (ready_upsertItem ready upserted).recorded.hashed _ (getItem_eq_some_iff.mp held).1
        exact hashed.symm.trans (congrArg Prod.fst face)
      · exact (congrArg (fun face => face.2.1) face).trans place
  | delete collection itemKey =>
      obtain ⟨call, retired, deactivated, file⟩ := deleteRecord_eq_ok done
      obtain ⟨_, holds⟩ := getItem_deactivateItem deactivated
      have others : OthersKept (exportedItems _ edited.spec.file) (exportedItems edited.store edited.spec.file)
          (edited.collection, edited.itemKey) := othersKept edited.spec.named
        (deactivateItem_frame deactivated) fun other different => by rw [holds, if_neg fun both => different both.2]
      refine ⟨?_, others, file, exportFile_inSync others file⟩
      intro item member sameKey
      obtain ⟨listed, present, rfl⟩ := List.mem_map.mp member
      obtain ⟨_, held, _⟩ := listed_of_mem edited.spec.named present
      have listedKey : listed.key = (edited.collection, edited.itemKey) := sameKey
      rw [listedKey, holds, if_pos ⟨rfl, rfl⟩] at held
      cases held

def syncedAtSixty : List Label :=
  let call : Call := ⟨"ops", "", fun _ => "2026-10-01T00:00:00Z"⟩
  [.ensureSource "metrics.json" "METRICS" "Metrics" "" call.clock,
    .ensureCollection "metrics.json" documentCollection [documentKey] "" 1 call.clock,
    .ensureCollection "metrics.json" "metrics" ["metric_code"] "" 0 call.clock,
    .upsert (documentItem metricsFile (Dict.empty.set "interval" (.int 60))) call]

/-- A setting changed by hand since the sync is written back to what it was. -/
theorem save_overwrites_hand_edit :
    ¬ ∀ (digest : String → String) (repr : Json → String) (catalog : List SourceSpec) (labels : List Label)
      (onDisk : Dict String Json) (request : Request) (edit : Edit) (edited : Edited),
      applyEdit digest repr catalog (run digest Store.empty labels) (.object onDisk) request edit = .ok edited →
        ∃ written, edited.file = .object written ∧
          ∀ name, name ≠ edited.collection → edited.collection ≠ documentCollection →
            written.get? name = onDisk.get? name := by
  intro keeps
  let onDisk : Dict String Json := Dict.empty.set "interval" (.int 300)
  let edit : Edit := .save "metrics" (.object [("metric_code", .string "cpu")]) none
  let outcome := applyEdit id (fun _ => "") [metricsFile] (run id Store.empty syncedAtSixty) (.object onDisk)
    ⟨"metrics.json", "ops", "", fun _ => ""⟩ edit
  have wrote : outcome.toOption.map (fun edited => (edited.collection, match edited.file with
      | .object written => written.get? "interval"
      | _ => none)) = some ("metrics", some (.int 60)) := by decide +kernel
  cases done : outcome with
  | error reason =>
      rw [done] at wrote
      cases wrote
  | ok edited =>
      rw [done] at wrote
      obtain ⟨collection, interval⟩ := Prod.mk.inj (Option.some.inj wrote)
      obtain ⟨written, file, stays⟩ := keeps _ _ _ _ _ _ _ edited done
      rw [file] at interval
      have kept := stays "interval" (by rw [collection]; decide) (by rw [collection]; decide)
      have hand : onDisk.get? "interval" = some (.int 300) := by decide +kernel
      rw [hand] at kept
      exact absurd (kept.symm.trans interval) (by decide +kernel)

end Edits

end DbaBrain.Db.ConfigEdit
