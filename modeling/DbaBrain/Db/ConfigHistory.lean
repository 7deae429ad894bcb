import DbaBrain.Db.ConfigStore

/-!
# The revision history of the config store

Every state of every row is recorded once, in order, and no row is lost.
-/

namespace DbaBrain.Db.ConfigHistory

open DbaBrain.Foundation DbaBrain.Foundation.KeyedWrites DbaBrain.Db.ConfigStore

/-- A call of the store. -/
inductive Label
  | ensureSource (sourceFile appCode displayName description : String) (clock : Nat → String)
  | ensureCollection (sourceFile collection : String) (keyFields : List String) (labelField : String)
      (collectionOrd : Int) (clock : Nat → String)
  | deactivateSource (sourceFile : String) (clock : Nat → String)
  | upsert (item : ConfigItem) (call : Call)
  | deactivate (sourceFile collection itemKey : String) (call : Call)

/-- A call that raises leaves the store as it was. -/
def left {ε : Type} (store : Store) (result : Except StoreError ε) (next : ε → Store) : Store :=
  match result with
  | .error _ => store
  | .ok value => next value

def apply (digest : String → String) (store : Store) : Label → Store
  | .ensureSource sourceFile appCode displayName description clock =>
      left store (ensureSource store sourceFile appCode displayName description clock) id
  | .ensureCollection sourceFile collection keyFields labelField collectionOrd clock =>
      left store (ensureCollection store sourceFile collection keyFields labelField collectionOrd clock) id
  | .deactivateSource sourceFile clock => left store (deactivateSource store sourceFile clock) Prod.fst
  | .upsert item call => left store (upsertItem digest store item call) Prod.fst
  | .deactivate sourceFile collection itemKey call =>
      left store (deactivateItem store sourceFile collection itemKey call) Prod.fst

def run (digest : String → String) (store : Store) (labels : List Label) : Store :=
  labels.foldl (apply digest) store

/-! ## What is recorded -/

structure Records (revision : RevisionRow) (row : ItemRow) : Prop where
  itemJson : revision.itemJson = row.itemJson
  contentHash : revision.contentHash = row.contentHash
  isActive : revision.isActive = row.isActive
  retired : row.isActive = false ↔ revision.changeType = .deactivate

structure Recorded (digest : String → String) (store : Store) : Prop where
  numbered : ∀ row ∈ store.items.rows,
    (store.revisionsOf row.configItemId).map RevisionRow.revision = List.range' 1 row.revision
  newest : ∀ row ∈ store.items.rows, ∃ revision,
    (store.revisionsOf row.configItemId).getLast? = some revision ∧ Records revision row
  owned : ∀ revision ∈ store.revisions.rows, (store.items.lookup revision.configItemId).isSome = true
  hashed : ∀ row ∈ store.items.rows, row.contentHash = contentHash digest row.itemJson

def GoesOn (store : Store) (row : ItemRow) : Prop :=
  (store.items.lookup row.configItemId = none ∧ row.revision = 1) ∨
    ∃ old, store.items.lookup row.configItemId = some old ∧ row.revision = old.revision + 1

section Steps

variable {digest : String → String} {store next : Store} {row : ItemRow} {changeType : ChangeType} {item : ConfigItem}
  {call : Call} {existing : ItemRow} {collectionId configItemId : Nat} {itemKey : String} {action : Action}

/-- The revisions of a row no revision names. -/
theorem revisionsOf_eq_nil (recorded : Recorded digest store) (fresh : store.items.lookup configItemId = none) :
    store.revisionsOf configItemId = [] := by
  rw [Store.revisionsOf, List.filter_eq_nil_iff]
  intro revision member own
  have held := recorded.owned revision member
  rw [of_decide_eq_true own, fresh] at held
  exact absurd held (by decide)

theorem Recorded.wrote (recorded : Recorded digest store) (wrote : Wrote store next row changeType)
    (goesOn : GoesOn store row) (retired : row.isActive = false ↔ changeType = .deactivate)
    (hashed : row.contentHash = contentHash digest row.itemJson) : Recorded digest next := by
  obtain ⟨changedAt, configRevisionId, revisions⟩ := wrote.revisionsOf
  refine ⟨?_, ?_, ?_, ?_⟩
  · intro other member
    rcases wrote.mem_items.mp member with rfl | ⟨before, different⟩
    · rw [revisions, if_pos rfl, List.map_append]
      rcases goesOn with ⟨fresh, first⟩ | ⟨old, found, again⟩
      · rw [revisionsOf_eq_nil recorded fresh, first]
        simp [recordRevision, first]
      · have numbered := recorded.numbered old (Table.mem_of_lookup found)
        rw [Table.key_of_lookup found] at numbered
        rw [numbered, again, List.range'_1_concat]
        simp [recordRevision, again, Nat.add_comm]
    · rw [revisions, if_neg (Ne.symm different), List.append_nil]
      exact recorded.numbered other before
  · intro other member
    rcases wrote.mem_items.mp member with rfl | ⟨before, different⟩
    · refine ⟨recordRevision other changeType changedAt configRevisionId, ?_, rfl, rfl, rfl, retired⟩
      rw [revisions, if_pos rfl, List.getLast?_append_of_ne_nil _ (List.cons_ne_nil _ _)]
      rfl
    · rw [revisions, if_neg (Ne.symm different), List.append_nil]
      exact recorded.newest other before
  · intro revision member
    obtain ⟨_, _, rows⟩ := wrote.revisions
    rw [wrote.items]
    split
    · rfl
    · rename_i different
      rw [rows, List.mem_append, List.mem_singleton] at member
      rcases member with before | rfl
      · exact recorded.owned revision before
      · exact absurd rfl different
  · intro other member
    rcases wrote.mem_items.mp member with rfl | ⟨before, _⟩
    · exact hashed
    · exact recorded.hashed other before

/-! ## What a call keeps -/

/-- No row and no revision is lost: a revision stays as it is, and so does a retired row; a row that is
written gets a new revision and keeps its identity. -/
structure Kept (store next : Store) : Prop where
  revisions : store.revisions.rows <+: next.revisions.rows
  items : ∀ old ∈ store.items.rows, ∃ row ∈ next.items.rows, row.configItemId = old.configItemId ∧
    row.configCollectionId = old.configCollectionId ∧ row.itemKey = old.itemKey ∧ row.createdAt = old.createdAt ∧
    (row = old ∨ (old.isActive = true ∧ old.revision < row.revision))

theorem Kept.of_same (revisions : next.revisions = store.revisions) (items : next.items = store.items) :
    Kept store next where
  revisions := revisions ▸ List.prefix_refl _
  items := fun old member => ⟨old, items ▸ member, rfl, rfl, rfl, rfl, Or.inl rfl⟩

theorem Kept.trans {last : Store} (kept : Kept store next) (again : Kept next last) : Kept store last where
  revisions := kept.revisions.trans again.revisions
  items := by
    intro old member
    obtain ⟨middle, present, sameId, sameCollection, sameKey, sameCreated, change⟩ := kept.items old member
    obtain ⟨row, held, ownId, ownCollection, ownKey, ownCreated, later⟩ := again.items middle present
    refine ⟨row, held, ownId.trans sameId, ownCollection.trans sameCollection, ownKey.trans sameKey,
      ownCreated.trans sameCreated, ?_⟩
    rcases change with rfl | ⟨active, grown⟩
    · exact later
    · rcases later with rfl | ⟨_, further⟩
      · exact Or.inr ⟨active, grown⟩
      · exact Or.inr ⟨active, grown.trans further⟩

/-- A write keeps the other rows; the row it writes over was active. -/
theorem Kept.wrote (wrote : Wrote store next row changeType)
    (replaced : ∀ old, store.items.lookup row.configItemId = some old → row.configCollectionId = old.configCollectionId ∧
      row.itemKey = old.itemKey ∧ row.createdAt = old.createdAt ∧ old.isActive = true ∧ old.revision < row.revision) :
    Kept store next where
  revisions := by
    obtain ⟨_, _, rows⟩ := wrote.revisions
    exact rows ▸ List.prefix_append _ _
  items := by
    intro old member
    rcases eq_or_ne old.configItemId row.configItemId with same | different
    · have found : store.items.lookup row.configItemId = some old := same ▸ Table.lookup_of_mem member
      obtain ⟨collection, key, created, active, grown⟩ := replaced old found
      exact ⟨row, wrote.mem_items.mpr (Or.inl rfl), same.symm, collection, key, created, Or.inr ⟨active, grown⟩⟩
    · exact ⟨old, wrote.mem_items.mpr (Or.inr ⟨member, different⟩), rfl, rfl, rfl, rfl, Or.inl rfl⟩

/-! ## Every call -/

/-- What a call leaves of a recorded store. -/
def Sound (digest : String → String) (store next : Store) : Prop := Recorded digest next ∧ Kept store next

theorem sound_of_same (recorded : Recorded digest store) (revisions : next.revisions = store.revisions)
    (items : next.items = store.items) : Sound digest store next := by
  refine ⟨⟨?_, ?_, ?_, ?_⟩, Kept.of_same revisions items⟩
  · rw [items]
    intro row member
    rw [Store.revisionsOf, revisions]
    exact recorded.numbered row member
  · rw [items]
    intro row member
    rw [Store.revisionsOf, revisions]
    exact recorded.newest row member
  · rw [items, revisions]
    exact recorded.owned
  · rw [items]
    exact recorded.hashed

variable {sourceFile : String} {clock : Nat → String}

theorem sound_ensureSource (recorded : Recorded digest store) {appCode displayName description : String}
    (done : ensureSource store sourceFile appCode displayName description clock = .ok next) :
    Sound digest store next := by
  rw [ensureSource] at done
  split at done
  · split at done
    · cases done
    · cases done
      exact sound_of_same recorded rfl rfl
  · split at done
    · cases done
    · cases done
      exact sound_of_same recorded rfl rfl

theorem sound_ensureCollection (recorded : Recorded digest store) {collection labelField : String}
    {keyFields : List String} {collectionOrd : Int}
    (done : ensureCollection store sourceFile collection keyFields labelField collectionOrd clock = .ok next) :
    Sound digest store next := by
  rw [ensureCollection] at done
  split at done
  · cases done
  · split at done
    · split at done
      · cases done
      · cases done
        exact sound_of_same recorded rfl rfl
    · split at done
      · cases done
      · cases done
        exact sound_of_same recorded rfl rfl

theorem sound_deactivateSource (recorded : Recorded digest store) {retired : Bool}
    (done : deactivateSource store sourceFile clock = .ok (next, retired)) : Sound digest store next := by
  rw [deactivateSource] at done
  split at done
  · cases done
  · cases done
    exact sound_of_same recorded rfl rfl

theorem sound_of_existing (recorded : Recorded digest store) (wrote : Wrote store next row changeType)
    (active : store.activeItem collectionId itemKey = some existing) (ownId : row.configItemId = existing.configItemId)
    (identity : row.configCollectionId = existing.configCollectionId ∧ row.itemKey = existing.itemKey ∧
      row.createdAt = existing.createdAt)
    (again : row.revision = existing.revision + 1) (retired : row.isActive = false ↔ changeType = .deactivate)
    (hashed : row.contentHash = contentHash digest row.itemJson) : Sound digest store next := by
  obtain ⟨member, covered⟩ := activeItem_eq_some_iff.mp active
  have found : store.items.lookup row.configItemId = some existing := ownId ▸ Table.lookup_of_mem member
  refine ⟨recorded.wrote wrote (Or.inr ⟨existing, found, again⟩) retired hashed, Kept.wrote wrote ?_⟩
  intro old looked
  obtain rfl := Option.some.inj (found.symm.trans looked)
  exact ⟨identity.1, identity.2.1, identity.2.2, (activeEntry_eq_some_iff.mp covered).1, by omega⟩

theorem sound_upsertItem (recorded : Recorded digest store)
    (done : upsertItem digest store item call = .ok (next, configItemId, action)) : Sound digest store next := by
  obtain ⟨collectionId, _, ⟨_, _, wrote⟩ | ⟨existing, active, ⟨_, _, rfl⟩ | ⟨_, _, wrote⟩⟩⟩ := upsertItem_cases done
  · have fresh : store.items.lookup (store.items.nextKey 0) = none := Table.lookup_nextKey _ _
    refine ⟨recorded.wrote wrote (Or.inl ⟨fresh, rfl⟩) (by simp [insertedRow]) rfl, Kept.wrote wrote ?_⟩
    intro old looked
    exact absurd (fresh.symm.trans looked) (Option.some_ne_none old).symm
  · exact sound_of_same recorded rfl rfl
  · have stays : (updatedRow digest existing item call).isActive = true :=
      (activeEntry_eq_some_iff.mp (activeItem_eq_some_iff.mp active).2).1
    exact sound_of_existing recorded wrote active rfl ⟨rfl, rfl, rfl⟩ rfl (by simp [stays]) rfl

theorem sound_deactivateItem (recorded : Recorded digest store) {collection : String} {retired : Option Nat}
    (done : deactivateItem store sourceFile collection itemKey call = .ok (next, retired)) :
    Sound digest store next := by
  obtain ⟨collectionId, _, ⟨_, _, rfl⟩ | ⟨existing, active, _, wrote⟩⟩ := deactivateItem_cases done
  · exact sound_of_same recorded rfl rfl
  · exact sound_of_existing recorded wrote active rfl ⟨rfl, rfl, rfl⟩ rfl (by simp [deactivatedRow])
      (recorded.hashed existing (activeItem_eq_some_iff.mp active).1)

/-! ## A recorded store refuses no write -/

theorem commit_isOk (recorded : Recorded digest store) (row : ItemRow) (goesOn : GoesOn store row)
    {items : Option ItemTable} (accepted : items.isSome = true) (changeType : ChangeType) (changedAt : String) :
    ∃ next, commit store items (recordRevision row changeType changedAt) = .ok next := by
  obtain ⟨table, rfl⟩ := Option.isSome_iff_exists.mp accepted
  have inserts : (store.revisions.insert? (recordRevision row changeType changedAt
      (store.revisions.nextKey 0))).isSome = true := by
    refine Table.insert?_isSome_iff.mpr ⟨Table.lookup_nextKey _ _, fun entry covered revision member held => ?_⟩
    rw [← covered] at held
    have both := Prod.mk.inj (Option.some.inj held)
    have sameItem : revision.configItemId = row.configItemId := both.1
    have sameRevision : revision.revision = row.revision := both.2
    rcases goesOn with ⟨fresh, _⟩ | ⟨old, found, again⟩
    · have owner := recorded.owned revision member
      rw [sameItem, fresh] at owner
      cases owner
    · have numbered := recorded.numbered old (Table.mem_of_lookup found)
      rw [Table.key_of_lookup found] at numbered
      have counted : revision.revision ∈ (store.revisionsOf row.configItemId).map RevisionRow.revision :=
        List.mem_map_of_mem (List.mem_filter.mpr ⟨member, decide_eq_true sameItem⟩)
      rw [numbered, List.mem_range'_1] at counted
      omega
  obtain ⟨revisions, recordedRow⟩ := Option.isSome_iff_exists.mp inserts
  exact ⟨{ store with items := table, revisions := revisions }, by simp only [commit, recordedRow]⟩

/-- The active row of a key can be written over, in place or out of the index. -/
theorem replaceItem_isSome (active : store.activeItem collectionId itemKey = some existing) (row : ItemRow)
    (ownId : row.configItemId = existing.configItemId)
    (entry : activeEntry row = none ∨ activeEntry row = activeEntry existing) :
    (replaceItem store row).isSome = true := by
  have keeps : ∀ other : ItemRow, ({ row with configItemId := other.configItemId } : ItemRow).configItemId =
      other.configItemId := fun _ => rfl
  refine Table.update?_isSome keeps fun other member matched => ?_
  have sameId : other.configItemId = existing.configItemId := (of_decide_eq_true matched).trans ownId
  rw [Table.eq_of_key_eq member (activeItem_eq_some_iff.mp active).1 sameId]
  exact entry

theorem upsertItem_isOk (recorded : Recorded digest store) (item : ConfigItem) (call : Call)
    (registered : store.collectionId item.sourceFile item.collection = some collectionId) :
    ∃ result, upsertItem digest store item call = .ok result := by
  rw [upsertItem, registered]
  simp only
  cases active : store.activeItem collectionId item.itemKey with
  | none =>
    have inserts : (store.items.insert?
        (insertedRow digest collectionId (store.items.nextKey 0) item call)).isSome = true := by
      refine Table.insert?_isSome_iff.mpr ⟨Table.lookup_nextKey _ _, fun entry covered other member held => ?_⟩
      have own : activeEntry (insertedRow digest collectionId (store.items.nextKey 0) item call) =
          some (collectionId, item.itemKey) := rfl
      rw [own] at covered
      exact activeItem_eq_none_iff.mp active other member (held.trans covered.symm)
    obtain ⟨next, committed⟩ := commit_isOk recorded
      (insertedRow digest collectionId (store.items.nextKey 0) item call) (Or.inl ⟨Table.lookup_nextKey _ _, rfl⟩)
      inserts .insert (call.clock 2)
    simp only
    rw [committed]
    exact ⟨_, rfl⟩
  | some existing =>
    simp only
    split
    · exact ⟨_, rfl⟩
    · have found := Table.lookup_of_mem (activeItem_eq_some_iff.mp active).1
      have writes := replaceItem_isSome active (updatedRow digest existing item call) rfl (Or.inr rfl)
      obtain ⟨next, committed⟩ := commit_isOk recorded (updatedRow digest existing item call)
        (Or.inr ⟨existing, found, rfl⟩) writes .update (call.clock 1)
      rw [committed]
      exact ⟨_, rfl⟩

theorem deactivateItem_isOk (recorded : Recorded digest store) (sourceFile collection itemKey : String) (call : Call)
    (registered : store.collectionId sourceFile collection = some collectionId) :
    ∃ result, deactivateItem store sourceFile collection itemKey call = .ok result := by
  rw [deactivateItem, registered]
  simp only
  cases active : store.activeItem collectionId itemKey with
  | none => exact ⟨_, rfl⟩
  | some existing =>
    have found := Table.lookup_of_mem (activeItem_eq_some_iff.mp active).1
    have writes := replaceItem_isSome active (deactivatedRow existing call) rfl (Or.inl rfl)
    obtain ⟨next, committed⟩ := commit_isOk recorded (deactivatedRow existing call)
      (Or.inr ⟨existing, found, rfl⟩) writes .deactivate (call.clock 2)
    simp only
    rw [committed]
    exact ⟨_, rfl⟩

end Steps

section Runs

variable {digest : String → String} {store : Store}

theorem left_sound {ε : Type} {result : Except StoreError ε} {next : ε → Store} (recorded : Recorded digest store)
    (sound : ∀ value, result = .ok value → Sound digest store (next value)) :
    Sound digest store (left store result next) := by
  cases result with
  | error reason => exact sound_of_same recorded rfl rfl
  | ok value => exact sound value rfl

/-- One call of any kind keeps the record and what is recorded. -/
theorem apply_sound (recorded : Recorded digest store) (label : Label) :
    Sound digest store (apply digest store label) := by
  cases label with
  | ensureSource sourceFile appCode displayName description clock =>
    exact left_sound recorded fun _ done => sound_ensureSource recorded done
  | ensureCollection sourceFile collection keyFields labelField collectionOrd clock =>
    exact left_sound recorded fun _ done => sound_ensureCollection recorded done
  | deactivateSource sourceFile clock => exact left_sound recorded fun _ done => sound_deactivateSource recorded done
  | upsert item call => exact left_sound recorded fun _ done => sound_upsertItem recorded done
  | deactivate sourceFile collection itemKey call =>
    exact left_sound recorded fun _ done => sound_deactivateItem recorded done

theorem run_sound (recorded : Recorded digest store) (labels : List Label) :
    Sound digest store (run digest store labels) := by
  induction labels generalizing store with
  | nil => exact sound_of_same recorded rfl rfl
  | cons label rest ih =>
    obtain ⟨after, kept⟩ := apply_sound recorded label
    obtain ⟨recordedLast, keptLast⟩ := ih after
    exact ⟨recordedLast, kept.trans keptLast⟩

theorem recorded_empty (digest : String → String) : Recorded digest Store.empty where
  numbered := fun _ member => absurd member List.not_mem_nil
  newest := fun _ member => absurd member List.not_mem_nil
  owned := fun _ member => absurd member List.not_mem_nil
  hashed := fun _ member => absurd member List.not_mem_nil

/-- After any calls the history of every row is whole and says what the row says, a key has one active row
at most, and later calls lose nothing of it. -/
theorem history_is_whole (digest : String → String) (earlier later : List Label) :
    Recorded digest (run digest Store.empty earlier) ∧
      (∀ row ∈ (run digest Store.empty earlier).items.rows, ∀ other ∈ (run digest Store.empty earlier).items.rows,
        row.isActive = true → other.isActive = true → row.configCollectionId = other.configCollectionId →
          row.itemKey = other.itemKey → row = other) ∧
      Kept (run digest Store.empty earlier) (run digest Store.empty (earlier ++ later)) := by
  obtain ⟨recorded, _⟩ := run_sound (recorded_empty digest) earlier
  refine ⟨recorded, ?_, ?_⟩
  · intro row member other present active alive sameCollection sameKey
    have covered : activeEntry row = some (other.configCollectionId, other.itemKey) :=
      activeEntry_eq_some_iff.mpr ⟨active, sameCollection, sameKey⟩
    exact Table.eq_of_index_eq member present covered (activeEntry_eq_some_iff.mpr ⟨alive, rfl, rfl⟩)
  · have joined : run digest Store.empty (earlier ++ later) = run digest (run digest Store.empty earlier) later :=
      List.foldl_append
    rw [joined]
    exact (run_sound recorded later).2

def twoSaves : List Label :=
  let metric := fun interval : Int =>
    ({ sourceFile := "metrics.json", collection := "metrics", itemKey := "cpu",
       payload := .object [("metric_code", .string "cpu"), ("interval", .int interval)], itemOrd := 0, label := "",
       note := "", metadata := [] } : ConfigItem)
  let call : Call := ⟨"ops", "", fun _ => "2026-10-01T00:00:00Z"⟩
  [.ensureSource "metrics.json" "METRICS" "Metrics" "" call.clock,
    .ensureCollection "metrics.json" "metrics" ["metric_code"] "" 0 call.clock, .upsert (metric 60) call,
    .upsert (metric 300) call]

/-- A changed record is written over its row. -/
theorem update_rewrites_the_row :
    ¬ ∀ (digest : String → String) (earlier : List Label) (label : Label),
      ∀ row ∈ (run digest Store.empty earlier).items.rows,
        row ∈ (run digest Store.empty (earlier ++ [label])).items.rows := by
  intro stays
  have changed : ¬ ∀ row ∈ (run id Store.empty (twoSaves.take 3)).items.rows,
      row ∈ (run id Store.empty twoSaves).items.rows := by decide +kernel
  exact changed (stays id (twoSaves.take 3) (twoSaves.getLast (List.cons_ne_nil _ _)))

end Runs

end DbaBrain.Db.ConfigHistory
