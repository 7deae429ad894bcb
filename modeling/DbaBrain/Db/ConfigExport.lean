import DbaBrain.Db.ConfigSyncRun
import DbaBrain.Foundation.JsonEqual

/-!
# Writing the store back

A file is rebuilt from its active rows.  What a sync has just stored of a file
is rebuilt to the file, but for the declared arrays that have no record and the
collections that are declared twice.
-/

namespace DbaBrain.Db.ConfigExport

open DbaBrain.Foundation DbaBrain.Foundation.KeyedWrites DbaBrain.Foundation.Selection DbaBrain.Db.ConfigStore
  DbaBrain.Db.ConfigHistory DbaBrain.Db.ConfigRegistry DbaBrain.Db.ConfigSync DbaBrain.Db.ConfigSyncRun

def exportedItem (listed : Listed) : ConfigItem where
  sourceFile := listed.source.sourceFile
  collection := listed.collection.collection
  itemKey := listed.row.itemKey
  payload := listed.row.itemJson
  itemOrd := listed.row.itemOrd
  label := listed.row.label
  note := ""
  metadata := []

def exportedItems (store : Store) (sourceFile : String) : List ConfigItem :=
  (store.listItems sourceFile).map exportedItem

def exported (store : Store) (spec : SourceSpec) : Option (Dict String Json) :=
  let items := exportedItems store spec.file
  if items = [] then none else some (rebuildPayload spec items)

/-- `export_file`, as what the file reads afterwards: a text that is there already is not written again. -/
def exportFile (store : Store) (spec : SourceSpec) (content : FileContent) : FileContent :=
  match exported store spec with
  | none => content
  | some rebuilt => .object rebuilt

def contentDrift (store : Store) (spec : SourceSpec) (content : FileContent) : Bool :=
  match exported store spec, content with
  | none, _ => false
  | some _, .missing => true
  | some _, .unreadable _ => true
  | some _, .unstorable _ _ => true
  | some rebuilt, .object onDisk => !Json.equal (.object onDisk.entries) (.object rebuilt.entries)

/-! ## Which rows are exported -/

section Rows

variable {digest : String → String} {store : Store} {sourceFile : String} {listed : Listed} {items others : List ConfigItem}
  {item : ConfigItem}

theorem listed_of_mem (named : sourceFile ≠ "") (member : listed ∈ store.listItems sourceFile) :
    listed.source.sourceFile = sourceFile ∧ store.getItem sourceFile listed.key = some listed.row ∧
      listed.row ∈ store.items.rows := by
  have held := (mem_listItems_iff named).mp ⟨listed, member, rfl, rfl⟩
  rw [Store.listItems, mem_sortedBy, List.mem_filterMap] at member
  obtain ⟨row, present, listedRow⟩ := member
  obtain ⟨rfl, _, _, _, filed⟩ := (listed_eq_some_iff named).mp listedRow
  exact ⟨filed, held, present⟩

/-- Where the digest separates the texts, a row that says what an item does is exported as the item. -/
theorem exportedItem_eq (injective : Function.Injective digest) (filed : listed.source.sourceFile = item.sourceFile)
    (sameKey : listed.key = item.key) (face : listed.row.face = item.face digest)
    (hashed : listed.row.contentHash = contentHash digest listed.row.itemJson)
    (plain : item.note = "" ∧ item.metadata = []) : exportedItem listed = item := by
  obtain ⟨sourceFile, collection, itemKey, payload, itemOrd, label, note, metadata⟩ := item
  obtain ⟨rfl, rfl⟩ := plain
  obtain ⟨sameHash, samePlace⟩ := Prod.mk.inj face
  obtain ⟨rfl, rfl⟩ := Prod.mk.inj samePlace
  obtain ⟨rfl, rfl⟩ := Prod.mk.inj sameKey
  have samePayload : listed.row.itemJson = payload :=
    Json.dumps_injective _ (injective (hashed.symm.trans sameHash))
  simp only at filed
  rw [exportedItem, filed, samePayload]

/-- Where the active rows of a file say what items with distinct keys do, the items are what is exported. -/
theorem exportedItems_perm (injective : Function.Injective digest) (named : sourceFile ≠ "")
    (ready : Ready digest store) (keys : (items.map ConfigItem.key).Nodup)
    (plain : ∀ item ∈ items, item.sourceFile = sourceFile ∧ item.note = "" ∧ item.metadata = [])
    (held : ∀ item ∈ items, heldFaces store sourceFile item.key = some (item.face digest))
    (nothing : ∀ key ∉ items.map ConfigItem.key, heldFaces store sourceFile key = none) :
    (exportedItems store sourceFile).Perm items := by
  have told : ∀ listed ∈ store.listItems sourceFile, ∀ item ∈ items, listed.key = item.key →
      exportedItem listed = item := by
    intro listed member item present same
    obtain ⟨filed, active, stored⟩ := listed_of_mem named member
    have face := held item present
    rw [← same, heldFaces, active, Option.map_some, Option.some_inj] at face
    obtain ⟨own, rest⟩ := plain item present
    exact exportedItem_eq injective (filed.trans own.symm) same face (ready.recorded.hashed _ stored) rest
  have distinct : (exportedItems store sourceFile).Nodup := by
    refine List.Nodup.of_map ConfigItem.key ?_
    rw [exportedItems, List.map_map]
    exact listItems_keys_nodup named
  refine (List.perm_ext_iff_of_nodup distinct keys.of_map).mpr fun item => ?_
  rw [exportedItems, List.mem_map]
  constructor
  · rintro ⟨listed, member, rfl⟩
    obtain ⟨_, active, _⟩ := listed_of_mem named member
    have there : listed.key ∈ items.map ConfigItem.key := by
      by_contra absent
      have gone := nothing listed.key absent
      rw [heldFaces, active] at gone
      cases gone
    obtain ⟨item, present, same⟩ := List.mem_map.mp there
    exact told listed member item present same.symm ▸ present
  · intro present
    have face := held item present
    rw [heldFaces, Option.map_eq_some_iff] at face
    obtain ⟨row, active, _⟩ := face
    obtain ⟨listed, member, same, _⟩ := (mem_listItems_iff named).mpr active
    exact ⟨listed, member, told listed member item present same⟩

theorem keys_nodup_of_rowsOf (nodup : ∀ name, ((rowsOf items name).map ConfigItem.itemKey).Nodup) :
    (items.map ConfigItem.key).Nodup := by
  induction items with
  | nil => exact List.nodup_nil
  | cons item rest ih =>
    rw [List.map_cons, List.nodup_cons]
    constructor
    · intro member
      obtain ⟨other, present, same⟩ := List.mem_map.mp member
      obtain ⟨sameCollection, sameKey⟩ := Prod.mk.inj same
      have own := nodup item.collection
      rw [rowsOf, List.filter_cons, if_pos (decide_eq_true rfl), List.map_cons, List.nodup_cons] at own
      refine own.1 (List.mem_map.mpr ⟨other, List.mem_filter.mpr ⟨present, decide_eq_true sameCollection⟩, sameKey⟩)
    · refine ih fun name => (nodup name).sublist ?_
      exact ((List.sublist_cons_self item rest).filter _).map _

/-- The order the rows come in does not matter, where a collection has no two with one key and there is one
document row at most. -/
theorem rebuildPayload_perm {spec : SourceSpec} (perm : items.Perm others)
    (keys : ∀ name, ((rowsOf items name).map ConfigItem.itemKey).Nodup)
    (document : (rowsOf items documentCollection).length ≤ 1) :
    rebuildPayload spec items = rebuildPayload spec others := by
  have rows : ∀ name, (rowsOf items name).Perm (rowsOf others name) := fun name => perm.filter _
  have arrays : ∀ name, arrayOf (rowsOf items name) = arrayOf (rowsOf others name) := by
    intro name
    have places : ((rowsOf items name).map placeOf).Nodup := by
      refine List.Nodup.of_map (fun place => (ofLex place).2) ?_
      rw [List.map_map]
      exact keys name
    rw [arrayOf, sortedBy_eq_of_perm (rows name) places, arrayOf]
  have documents : rowsOf items documentCollection = rowsOf others documentCollection := by
    cases listed : rowsOf items documentCollection with
    | nil => exact ((listed ▸ rows documentCollection).symm.eq_nil).symm
    | cons item rest =>
      rw [listed, List.length_cons] at document
      obtain rfl : rest = [] := List.length_eq_zero_iff.mp (by omega)
      exact (List.perm_singleton.mp (listed ▸ rows documentCollection).symm).symm
  have empties : ∀ name, rowsOf items name = [] ↔ rowsOf others name = [] := by
    intro name
    rw [← List.length_eq_zero_iff, (rows name).length_eq, List.length_eq_zero_iff]
  rw [rebuildPayload, rebuildPayload, documentOf, documentOf, documents]
  congr 1
  funext rebuilt collection
  simp only [arrays, empties]

end Rows

/-! ## Exporting what was just synced -/

section RoundTrip

variable {digest : String → String} {repr : Json → String} {store : Store} {spec : SourceSpec}
  {payload : Dict String Json} {items : List ConfigItem}

theorem documentRows_of_split (done : splitPayload repr spec payload = .ok items) :
    rowsOf items documentCollection = [documentItem spec (remainder spec payload)] := by
  obtain ⟨parts, contributes, rfl⟩ := splitPayload_eq_ok done
  have undeclared : documentCollection ∉ spec.collections.map CollectionSpec.collection := by
    intro member
    obtain ⟨collection, _, same⟩ := List.mem_map.mp member
    exact collection.notDocument same
  rw [rowsOf_append, rowsOf_flatten_of_not_mem contributes undeclared]
  rfl

/-- Of a restorable payload no two records of a collection have one key. -/
theorem rowsOf_split_keys (done : splitPayload repr spec payload = .ok items) (restorable : Restorable spec payload)
    (name : String) : ((rowsOf items name).map ConfigItem.itemKey).Nodup := by
  rcases eq_or_ne name documentCollection with rfl | other
  · rw [documentRows_of_split done]
    exact List.nodup_singleton _
  · obtain ⟨parts, contributes, rfl⟩ := splitPayload_eq_ok done
    rw [rowsOf_append]
    have alone : rowsOf [documentItem spec (remainder spec payload)] name = [] := by
      simp [rowsOf, documentItem, other.symm]
    rw [alone, List.append_nil]
    by_cases declared : name ∈ spec.names
    · cases present : payload.get? name with
      | none =>
        rw [rowsOf_flatten_of_no_array contributes (Or.inl present)]
        exact List.nodup_nil
      | some value =>
        obtain ⟨notNull, _, once⟩ := restorable name declared value present
        obtain ⟨records, rfl⟩ := (array_of_mem contributes declared present).resolve_left notNull
        exact (holds_rowsOf_flatten contributes present once).keys
    · rw [rowsOf_flatten_of_not_mem contributes declared]
      exact List.nodup_nil

theorem exported_after_sync (injective : Function.Injective digest) (ready : Ready digest store)
    (done : splitPayload repr spec payload = .ok items) (restorable : Restorable spec payload) (actor : String)
    (clock : Nat → Nat → String) :
    ∃ last outcome, syncOne digest repr store spec (.object payload) actor clock = .ok (last, outcome) ∧
      exported last spec = some (rebuildPayload spec items) := by
  have read : itemsOf repr spec (.object payload) = .ok items := by
    rw [itemsOf, done]
  obtain ⟨last, synced, readyLast, held, _⟩ := syncOne_isOk ready read (fun _ _ => rfl) actor clock
  have byName := rowsOf_split_keys done restorable
  have keys := keys_nodup_of_rowsOf byName
  have once : Consistent (entriesOf digest items) := by
    refine List.pairwise_map.mpr (List.Pairwise.imp ?_ (List.pairwise_map.mp keys))
    intro first second apart same
    exact absurd same apart
  have perm := exportedItems_perm injective spec.named readyLast keys
    (fun item member => (mem_split done member).1)
    (fun item member => by
      rw [held, if_pos (List.mem_map_of_mem member)]
      exact final_of_mem once (List.mem_map_of_mem member))
    (fun key absent => by rw [held, if_neg absent])
  have document : documentItem spec (remainder spec payload) ∈ items := by
    have own : documentItem spec (remainder spec payload) ∈ rowsOf items documentCollection := by
      rw [documentRows_of_split done]
      exact List.mem_singleton_self _
    exact List.mem_of_mem_filter own
  have some_item : exportedItems last spec.file ≠ [] := List.ne_nil_of_mem (perm.mem_iff.mpr document)
  refine ⟨last, _, synced, ?_⟩
  rw [exported]
  simp only [if_neg some_item]
  refine congrArg some (rebuildPayload_perm perm.symm byName ?_).symm
  rw [documentRows_of_split done]
  exact Nat.le_refl 1

/-- A file that is split is rebuilt from its items; and synced over what any calls left, it is exported as
it was, and no drift of it is reported. -/
def RoundTrips (digest : String → String) (repr : Json → String) (spec : SourceSpec) (payload : Dict String Json)
    (items : List ConfigItem) : Prop :=
  Dict.Same (rebuildPayload spec items) payload ∧
    ∀ (labels : List Label) (actor : String) (clock : Nat → Nat → String), ∃ last outcome rebuilt,
      syncOne digest repr (run digest Store.empty labels) spec (.object payload) actor clock = .ok (last, outcome) ∧
        exportFile last spec (.object payload) = .object rebuilt ∧ Dict.Same rebuilt payload ∧
        contentDrift last spec (.object payload) = false

/-- A file that is accepted makes the round trip exactly when each declared collection it has is an array
with a record and is declared once. -/
theorem round_trips_iff (digest : String → String) (injective : Function.Injective digest) (repr : Json → String)
    (spec : SourceSpec) (payload : Dict String Json) (items : List ConfigItem)
    (done : splitPayload repr spec payload = .ok items) :
    RoundTrips digest repr spec payload items ↔ Restorable spec payload := by
  constructor
  · intro roundTrips
    exact (rebuild_split_iff done).mp roundTrips.1
  · intro restorable
    have same := (rebuild_split_iff done).mpr restorable
    refine ⟨same, fun labels actor clock => ?_⟩
    obtain ⟨last, outcome, synced, given⟩ :=
      exported_after_sync injective (ready_run digest labels) done restorable actor clock
    refine ⟨last, outcome, rebuildPayload spec items, synced, ?_, same, ?_⟩
    · rw [exportFile, given]
    · simp only [contentDrift, given, Json.equal_of_same same.symm, Bool.not_true]

theorem metrics_named : "metrics" ≠ "" := by decide

theorem metrics_keyed : ["metric_code"] ≠ [] := by decide

theorem metrics_not_document : "metrics" ≠ documentCollection := by decide

theorem metrics_file_named : "metrics.json" ≠ "" := by decide

def metricsFile : SourceSpec :=
  ⟨"metrics.json", "METRICS", "Metrics", "",
    [⟨"metrics", ["metric_code"], "", metrics_named, metrics_keyed, metrics_not_document⟩], metrics_file_named⟩

/-- One metric and a setting go into the store and come back. -/
theorem round_trips_metric :
    splitPayload (fun _ => "") metricsFile (oneMetric.set "interval" (.int 60)) = .ok
        [recordItem (fun _ => "") metricsFile ⟨"metrics", ["metric_code"], "", by decide, by decide, by decide⟩ "cpu" 0
          [("metric_code", .string "cpu")], documentItem metricsFile (Dict.empty.set "interval" (.int 60))] ∧
      (RoundTrips id (fun _ => "") metricsFile (oneMetric.set "interval" (.int 60))
        [recordItem (fun _ => "") metricsFile ⟨"metrics", ["metric_code"], "", by decide, by decide, by decide⟩ "cpu" 0
          [("metric_code", .string "cpu")], documentItem metricsFile (Dict.empty.set "interval" (.int 60))] ↔
        Restorable metricsFile (oneMetric.set "interval" (.int 60))) := by
  have done : splitPayload (fun _ => "") metricsFile (oneMetric.set "interval" (.int 60)) = .ok
      [recordItem (fun _ => "") metricsFile ⟨"metrics", ["metric_code"], "", by decide, by decide, by decide⟩ "cpu" 0
        [("metric_code", .string "cpu")], documentItem metricsFile (Dict.empty.set "interval" (.int 60))] := by
    decide +kernel
  exact ⟨done, round_trips_iff id Function.injective_id (fun _ => "") metricsFile _ _ done⟩

def noMetric : Dict String Json := Dict.empty.set "metrics" (.array [])

/-- An array that is declared, present and empty is not rebuilt. -/
theorem empty_array_is_dropped :
    ¬ ∀ (digest : String → String), Function.Injective digest → ∀ (repr : Json → String) (spec : SourceSpec)
      (payload : Dict String Json) (items : List ConfigItem),
      splitPayload repr spec payload = .ok items → RoundTrips digest repr spec payload items := by
  intro always
  have dropped : (splitPayload (fun _ => "") metricsFile noMetric).map (fun items =>
      (rebuildPayload metricsFile items).get? "metrics") = .ok none := by decide +kernel
  cases done : splitPayload (fun _ => "") metricsFile noMetric with
  | error reason =>
      rw [done] at dropped
      cases dropped
  | ok items =>
      rw [done] at dropped
      have same := (always id Function.injective_id (fun _ => "") metricsFile noMetric items done).1 "metrics"
      have gone : (rebuildPayload metricsFile items).get? "metrics" = none := Except.ok.inj dropped
      rw [gone] at same
      exact absurd same (by decide +kernel)

end RoundTrip

end DbaBrain.Db.ConfigExport
