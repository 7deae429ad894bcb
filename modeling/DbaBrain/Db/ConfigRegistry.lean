import DbaBrain.Db.ConfigHistory

/-!
# Files and collections of the config store

Registering a file or a collection again changes no item: what the active row of
a key is, and which collection a name is, stay.
-/

namespace DbaBrain.Db.ConfigRegistry

open DbaBrain.Foundation DbaBrain.Foundation.KeyedWrites DbaBrain.Db.ConfigStore DbaBrain.Db.ConfigHistory

section Links

variable {digest : String → String} {store next : Store} {row existing : ItemRow} {changeType : ChangeType}
  {item : ConfigItem} {call : Call} {collectionId configItemId : Nat} {itemKey : String} {action : Action}

/-- Every item is in a collection, and every collection in a file. -/
structure Linked (store : Store) : Prop where
  items : ∀ row ∈ store.items.rows, (store.collections.lookup row.configCollectionId).isSome = true
  collections : ∀ row ∈ store.collections.rows, (store.sources.lookup row.configSourceId).isSome = true

theorem Linked.wrote (linked : Linked store) (wrote : Wrote store next row changeType)
    (placed : (store.collections.lookup row.configCollectionId).isSome = true) : Linked next where
  items := by
    intro other member
    rw [wrote.collections]
    rcases wrote.mem_items.mp member with rfl | ⟨present, _⟩
    · exact placed
    · exact linked.items other present
  collections := by
    rw [wrote.collections, wrote.sources]
    exact linked.collections

theorem Linked.active (linked : Linked store) (active : store.activeItem collectionId itemKey = some existing) :
    (store.collections.lookup existing.configCollectionId).isSome = true :=
  linked.items existing (activeItem_eq_some_iff.mp active).1

theorem linked_upsertItem (linked : Linked store)
    (done : upsertItem digest store item call = .ok (next, configItemId, action)) : Linked next := by
  obtain ⟨collectionId, registered, ⟨_, _, wrote⟩ | ⟨existing, active, ⟨_, _, rfl⟩ | ⟨_, _, wrote⟩⟩⟩ :=
    upsertItem_cases done
  · obtain ⟨collection, looked, _⟩ := collectionId_eq_some_iff.mp registered
    exact linked.wrote wrote (Option.isSome_iff_exists.mpr ⟨collection, looked⟩)
  · exact linked
  · have placed := linked.active active
    exact linked.wrote wrote placed

theorem linked_deactivateItem (linked : Linked store) {sourceFile collection : String} {retired : Option Nat}
    (done : deactivateItem store sourceFile collection itemKey call = .ok (next, retired)) : Linked next := by
  obtain ⟨collectionId, _, ⟨_, _, rfl⟩ | ⟨existing, active, _, wrote⟩⟩ := deactivateItem_cases done
  · exact linked
  · have placed := linked.active active
    exact linked.wrote wrote placed

end Links

/-! ## Registering -/

/-- No item changes, and no file or collection is lost or renamed. -/
structure Persists (store next : Store) : Prop where
  items : next.items = store.items
  revisions : next.revisions = store.revisions
  collections : ∀ id row, store.collections.lookup id = some row → ∃ kept, next.collections.lookup id = some kept ∧
    kept.collection = row.collection ∧ kept.configSourceId = row.configSourceId
  sources : ∀ id row, store.sources.lookup id = some row → ∃ kept, next.sources.lookup id = some kept ∧
    kept.sourceFile = row.sourceFile

section Registry

variable {digest : String → String} {store next : Store} {row : ItemRow} {sourceFile collection : String}
  {key : String × String} {clock : Nat → String} {collectionId : Nat}

theorem Persists.refl (store : Store) : Persists store store where
  items := rfl
  revisions := rfl
  collections := fun _ row looked => ⟨row, looked, rfl, rfl⟩
  sources := fun _ row looked => ⟨row, looked, rfl⟩

theorem Persists.trans {last : Store} (persists : Persists store next) (again : Persists next last) :
    Persists store last where
  items := again.items.trans persists.items
  revisions := again.revisions.trans persists.revisions
  collections := by
    intro id row looked
    obtain ⟨middle, found, named, placed⟩ := persists.collections id row looked
    obtain ⟨kept, held, sameName, samePlace⟩ := again.collections id middle found
    exact ⟨kept, held, sameName.trans named, samePlace.trans placed⟩
  sources := by
    intro id row looked
    obtain ⟨middle, found, named⟩ := persists.sources id row looked
    obtain ⟨kept, held, sameName⟩ := again.sources id middle found
    exact ⟨kept, held, sameName.trans named⟩

/-- Items stay in their collections; what is left is that every collection has its file. -/
theorem Persists.linked (persists : Persists store next) (linked : Linked store)
    (placed : ∀ row ∈ next.collections.rows, (next.sources.lookup row.configSourceId).isSome = true) : Linked next where
  items := by
    intro row member
    rw [persists.items] at member
    obtain ⟨collection, looked⟩ := Option.isSome_iff_exists.mp (linked.items row member)
    obtain ⟨kept, held, _⟩ := persists.collections _ collection looked
    exact Option.isSome_iff_exists.mpr ⟨kept, held⟩
  collections := placed

theorem Persists.collectionId_eq (persists : Persists store next)
    (registered : store.collectionId sourceFile collection = some collectionId) :
    next.collectionId sourceFile collection = some collectionId := by
  obtain ⟨row, looked, rfl, source, sourced, rfl⟩ := collectionId_eq_some_iff.mp registered
  obtain ⟨kept, held, sameName, samePlace⟩ := persists.collections _ row looked
  obtain ⟨keptSource, heldSource, sameFile⟩ := persists.sources _ source sourced
  exact collectionId_eq_some_iff.mpr ⟨kept, held, sameName, keptSource, samePlace ▸ heldSource, sameFile⟩

theorem getItem_eq_some_iff :
    store.getItem sourceFile key = some row ↔
      row ∈ store.items.rows ∧ row.isActive = true ∧ row.itemKey = key.2 ∧
        store.collectionId sourceFile key.1 = some row.configCollectionId := by
  rw [Store.getItem, Option.bind_eq_some_iff]
  constructor
  · rintro ⟨collectionId, registered, active⟩
    obtain ⟨member, covered⟩ := activeItem_eq_some_iff.mp active
    obtain ⟨alive, rfl, sameKey⟩ := activeEntry_eq_some_iff.mp covered
    exact ⟨member, alive, sameKey, registered⟩
  · rintro ⟨member, alive, sameKey, registered⟩
    exact ⟨row.configCollectionId, registered,
      activeItem_eq_some_iff.mpr ⟨member, activeEntry_eq_some_iff.mpr ⟨alive, rfl, sameKey⟩⟩⟩

/-- The active rows stay, where every item is in a collection of a file. -/
theorem Persists.getItem (persists : Persists store next) (linked : Linked store) (sourceFile : String)
    (key : String × String) : next.getItem sourceFile key = store.getItem sourceFile key := by
  refine Option.ext fun row => ?_
  rw [getItem_eq_some_iff, getItem_eq_some_iff, persists.items]
  refine and_congr_right fun member => and_congr_right fun _ => and_congr_right fun _ => ?_
  refine ⟨fun registered => ?_, persists.collectionId_eq⟩
  obtain ⟨collection, looked⟩ := Option.isSome_iff_exists.mp (linked.items row member)
  obtain ⟨source, sourced⟩ :=
    Option.isSome_iff_exists.mp (linked.collections collection (Table.mem_of_lookup looked))
  have before : store.collectionId source.sourceFile collection.collection = some row.configCollectionId :=
    collectionId_eq_some_iff.mpr ⟨collection, looked, rfl, source, sourced, rfl⟩
  obtain ⟨sameFile, sameName⟩ := collectionId_inj (persists.collectionId_eq before) registered
  rw [sameFile, sameName]
  exact before

/-- Registering a file is never refused, and loses nothing. -/
theorem ensureSource_isOk (linked : Linked store) (sourceFile appCode displayName description : String)
    (clock : Nat → String) :
    ∃ next, ensureSource store sourceFile appCode displayName description clock = .ok next ∧ Persists store next ∧
      Linked next ∧ ∃ source ∈ next.sources.rows, source.sourceFile = sourceFile := by
  have persist : ∀ sources : Table SourceRow.configSourceId sourceEntry,
      (∀ id row, store.sources.lookup id = some row → ∃ kept, sources.lookup id = some kept ∧
        kept.sourceFile = row.sourceFile) →
      Persists store { store with sources := sources } ∧ Linked { store with sources := sources } := by
    intro sources keeps
    have persists : Persists store { store with sources := sources } :=
      ⟨rfl, rfl, fun _ row looked => ⟨row, looked, rfl, rfl⟩, keeps⟩
    refine ⟨persists, persists.linked linked fun row member => ?_⟩
    obtain ⟨source, sourced⟩ := Option.isSome_iff_exists.mp (linked.collections row member)
    obtain ⟨kept, held, _⟩ := keeps _ source sourced
    exact Option.isSome_iff_exists.mpr ⟨kept, held⟩
  rw [ensureSource]
  cases found : store.sources.rows.find? fun row => row.sourceFile = sourceFile with
  | none =>
    have fresh : ∀ row ∈ store.sources.rows, row.sourceFile ≠ sourceFile := by
      intro row member same
      have missing := List.find?_eq_none.mp found row member
      simp [same] at missing
    have accepted : (store.sources.insert? (newSource (store.sources.nextKey 0) sourceFile appCode displayName
        description clock)).isSome = true := by
      refine Table.insert?_isSome_iff.mpr ⟨Table.lookup_nextKey _ _, fun entry covered other member held => ?_⟩
      exact fresh other member (Option.some.inj (held.trans covered.symm))
    obtain ⟨sources, inserted⟩ := Option.isSome_iff_exists.mp accepted
    simp only
    rw [inserted]
    obtain ⟨persists, stillLinked⟩ := persist sources fun id row looked =>
      ⟨row, Table.lookup_insert?_of_found inserted looked, rfl⟩
    exact ⟨_, rfl, persists, stillLinked, _, Table.mem_of_lookup (Table.lookup_insert?_self inserted), rfl⟩
  | some row =>
    have matched := List.find?_some found
    have looked := Table.lookup_of_mem (List.mem_of_find?_eq_some found)
    have accepted : (store.sources.update? (fun other => other.configSourceId = row.configSourceId)
        (renewedSource appCode displayName description clock)).isSome = true :=
      Table.update?_isSome (fun _ => rfl) fun _ _ _ => Or.inr rfl
    obtain ⟨sources, updated⟩ := Option.isSome_iff_exists.mp accepted
    simp only
    rw [updated]
    obtain ⟨persists, stillLinked⟩ := persist sources fun id other held => by
      refine ⟨_, (Table.lookup_update? (by intro row; rfl) updated id).trans (congrArg _ held), ?_⟩
      simp only
      split
      · rfl
      · rfl
    refine ⟨_, rfl, persists, stillLinked, ?_⟩
    obtain ⟨kept, held, same⟩ := persists.sources _ row looked
    exact ⟨kept, Table.mem_of_lookup held, same.trans (of_decide_eq_true matched)⟩

/-- Registering a collection of a known file is never refused, and loses nothing. -/
theorem ensureCollection_isOk (linked : Linked store) (known : ∃ source ∈ store.sources.rows, source.sourceFile = sourceFile)
    (collection : String) (keyFields : List String) (labelField : String) (collectionOrd : Int) (clock : Nat → String) :
    ∃ next, ensureCollection store sourceFile collection keyFields labelField collectionOrd clock = .ok next ∧
      Persists store next ∧ Linked next ∧ (next.collectionId sourceFile collection).isSome = true := by
  rw [ensureCollection]
  cases filed : store.sources.rows.find? fun row => row.sourceFile = sourceFile with
  | none =>
    obtain ⟨source, member, same⟩ := known
    have missing := List.find?_eq_none.mp filed source member
    simp [same] at missing
  | some source =>
    have sourced := Table.lookup_of_mem (List.mem_of_find?_eq_some filed)
    have matchedFile := List.find?_some filed
    have sameFile : source.sourceFile = sourceFile := of_decide_eq_true matchedFile
    simp only
    cases found : store.collections.rows.find? fun row =>
        row.configSourceId = source.configSourceId && row.collection = collection with
    | none =>
      have fresh : ∀ row ∈ store.collections.rows,
          ¬ (row.configSourceId = source.configSourceId ∧ row.collection = collection) := by
        intro row member same
        have missing := List.find?_eq_none.mp found row member
        simp [same] at missing
      have accepted : (store.collections.insert? (newCollection (store.collections.nextKey 0)
          source.configSourceId collection keyFields labelField collectionOrd clock)).isSome = true := by
        refine Table.insert?_isSome_iff.mpr ⟨Table.lookup_nextKey _ _, fun entry covered other member held => ?_⟩
        have both := Prod.mk.inj (Option.some.inj (held.trans covered.symm))
        exact fresh other member both
      obtain ⟨collections, inserted⟩ := Option.isSome_iff_exists.mp accepted
      have own := Table.lookup_insert?_self inserted
      simp only
      rw [inserted]
      have persists : Persists store { store with collections := collections } :=
        ⟨rfl, rfl, fun id row looked => ⟨row, Table.lookup_insert?_of_found inserted looked, rfl, rfl⟩,
          fun _ row looked => ⟨row, looked, rfl⟩⟩
      refine ⟨_, rfl, persists, persists.linked linked fun row member => ?_, ?_⟩
      · simp only at member
        rw [Table.rows_of_insert? inserted, List.mem_append, List.mem_singleton] at member
        rcases member with present | rfl
        · exact linked.collections row present
        · exact Option.isSome_iff_exists.mpr ⟨source, sourced⟩
      · exact Option.isSome_iff_exists.mpr ⟨store.collections.nextKey 0,
          collectionId_eq_some_iff.mpr ⟨_, own, rfl, source, sourced, sameFile⟩⟩
    | some row =>
      have matched := List.find?_some found
      rw [Bool.and_eq_true, decide_eq_true_eq, decide_eq_true_eq] at matched
      have looked := Table.lookup_of_mem (List.mem_of_find?_eq_some found)
      have accepted : (store.collections.update? (fun other => other.configCollectionId = row.configCollectionId)
          (renewedCollection keyFields labelField collectionOrd clock)).isSome = true :=
        Table.update?_isSome (fun _ => rfl) fun _ _ _ => Or.inr rfl
      obtain ⟨collections, updated⟩ := Option.isSome_iff_exists.mp accepted
      have after := Table.lookup_update? (by intro row; rfl) updated
      have kept : ∀ other : CollectionRow, ∀ changed : Bool,
          (if changed then renewedCollection keyFields labelField collectionOrd clock other else other).collection =
            other.collection ∧
          (if changed then renewedCollection keyFields labelField collectionOrd clock other
            else other).configSourceId = other.configSourceId := by
        intro other changed
        cases changed with
        | true => exact ⟨rfl, rfl⟩
        | false => exact ⟨rfl, rfl⟩
      have persists : Persists store { store with collections := collections } := by
        refine ⟨rfl, rfl, fun id other held => ?_, fun _ other held => ⟨other, held, rfl⟩⟩
        exact ⟨_, (after id).trans (congrArg _ held), kept other _⟩
      simp only
      rw [updated]
      refine ⟨_, rfl, persists, persists.linked linked fun other member => ?_, ?_⟩
      · simp only at member
        rw [Table.rows_of_update? updated, List.mem_map] at member
        obtain ⟨before, present, rfl⟩ := member
        rw [(kept before _).2]
        exact linked.collections before present
      · refine Option.isSome_iff_exists.mpr ⟨row.configCollectionId, persists.collectionId_eq ?_⟩
        exact collectionId_eq_some_iff.mpr ⟨row, looked, matched.2, source, matched.1 ▸ sourced, sameFile⟩

end Registry

/-! ## Every call -/

/-- A store as calls leave it: its history is whole and its rows are linked. -/
structure Ready (digest : String → String) (store : Store) : Prop where
  recorded : Recorded digest store
  linked : Linked store

section Runs

variable {digest : String → String} {store next : Store}

theorem Ready.of_persists (ready : Ready digest store) (persists : Persists store next) (linked : Linked next) :
    Ready digest next where
  recorded := (sound_of_same ready.recorded persists.revisions persists.items).1
  linked := linked

variable {call : Call} {sourceFile : String}

theorem ready_upsertItem (ready : Ready digest store) {item : ConfigItem} {configItemId : Nat} {action : Action}
    (done : upsertItem digest store item call = .ok (next, configItemId, action)) :
    Ready digest next where
  recorded := (sound_upsertItem ready.recorded done).1
  linked := linked_upsertItem ready.linked done

theorem ready_deactivateItem (ready : Ready digest store) {collection itemKey : String} {retired : Option Nat}
    (done : deactivateItem store sourceFile collection itemKey call = .ok (next, retired)) :
    Ready digest next where
  recorded := (sound_deactivateItem ready.recorded done).1
  linked := linked_deactivateItem ready.linked done

theorem linked_deactivateSource (linked : Linked store) {clock : Nat → String} {retired : Bool}
    (done : deactivateSource store sourceFile clock = .ok (next, retired)) : Linked next := by
  rw [deactivateSource] at done
  split at done
  · cases done
  · rename_i sources updated
    cases done
    refine ⟨linked.items, fun row member => ?_⟩
    have kept := Table.lookup_update?_isSome (by intro source; rfl) updated row.configSourceId
    rw [kept]
    exact linked.collections row member

theorem left_linked {ε : Type} {result : Except StoreError ε} {after : ε → Store} (linked : Linked store)
    (keeps : ∀ value, result = .ok value → Linked (after value)) : Linked (left store result after) := by
  cases result with
  | error reason => exact linked
  | ok value => exact keeps value rfl

theorem linked_apply (linked : Linked store) (label : Label) : Linked (apply digest store label) := by
  cases label with
  | ensureSource sourceFile appCode displayName description clock =>
    refine left_linked linked fun value done => ?_
    obtain ⟨_, accepted, _, kept, _⟩ := ensureSource_isOk linked sourceFile appCode displayName description clock
    obtain rfl := Except.ok.inj (accepted.symm.trans done)
    exact kept
  | ensureCollection sourceFile collection keyFields labelField collectionOrd clock =>
    refine left_linked linked fun value done => ?_
    have known : ∃ source ∈ store.sources.rows, source.sourceFile = sourceFile := by
      rw [ensureCollection] at done
      split at done
      · cases done
      · rename_i source found
        have matched := List.find?_some found
        exact ⟨source, List.mem_of_find?_eq_some found, of_decide_eq_true matched⟩
    obtain ⟨_, accepted, _, kept, _⟩ :=
      ensureCollection_isOk linked known collection keyFields labelField collectionOrd clock
    obtain rfl := Except.ok.inj (accepted.symm.trans done)
    exact kept
  | deactivateSource sourceFile clock => exact left_linked linked fun _ done => linked_deactivateSource linked done
  | upsert item call => exact left_linked linked fun _ done => linked_upsertItem linked done
  | deactivate sourceFile collection itemKey call =>
    exact left_linked linked fun _ done => linked_deactivateItem linked done

/-- After any calls the store is ready. -/
theorem ready_run (digest : String → String) (labels : List Label) : Ready digest (run digest Store.empty labels) := by
  refine ⟨(run_sound (recorded_empty digest) labels).1, ?_⟩
  have folded : ∀ {store : Store}, Linked store → Linked (run digest store labels) := by
    intro store linked
    induction labels generalizing store with
    | nil => exact linked
    | cons label rest ih => exact ih (linked_apply linked label)
  exact folded ⟨nofun, nofun⟩

end Runs

end DbaBrain.Db.ConfigRegistry
