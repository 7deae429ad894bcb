import DbaBrain.Db.ConfigSync

/-!
# The keys of a collection's records

A record's key is the text of its key fields, joined.  Records that differ may have
one key; a file that holds two such records in one collection is refused, so the
rows of a file that is accepted are each one record's.
-/

namespace DbaBrain.Db.ConfigSync

open DbaBrain.Foundation DbaBrain.Db.ConfigStore

/-! ## Equal keys -/

section Keys

variable {repr : Json → String} {keyFields : List String} {first second : List (String × Json)} {key : String}

def keyTexts (repr : Json → String) (keyFields : List String) (record : List (String × Json)) : List String :=
  keyFields.map fun name => str repr ((field record name).getD .null)

theorem keyFor_eq_ok : keyFor repr keyFields first = .ok key ↔
    (∀ name ∈ keyFields, (field first name).isSome) ∧ "|".intercalate (keyTexts repr keyFields first) = key := by
  unfold keyFor
  cases missing : keyFields.find? fun name => (field first name).isNone with
  | some name =>
    have absent := List.find?_some missing
    have listed := List.mem_of_find?_eq_some missing
    refine ⟨nofun, fun ⟨every, _⟩ => ?_⟩
    have present := every name listed
    rw [Option.isNone_iff_eq_none.mp absent] at present
    cases present
  | none =>
    have every : ∀ name ∈ keyFields, (field first name).isSome := by
      intro name listed
      simpa [Option.isSome_iff_ne_none] using List.find?_eq_none.mp missing name listed
    exact ⟨fun same => ⟨every, Except.ok.inj same⟩, fun same => congrArg Except.ok same.2⟩

/-- Texts without the sign are told apart by what they are joined to; of one text the sign does not matter. -/
theorem intercalate_inj {texts others : List String} (alike : texts.length = others.length)
    (plain : texts.length = 1 ∨ ∀ text ∈ texts ++ others, '|' ∉ text.toList)
    (same : "|".intercalate texts = "|".intercalate others) : texts = others := by
  rcases plain with one | plain
  · obtain ⟨text, rfl⟩ := List.length_eq_one_iff.mp one
    obtain ⟨other, rfl⟩ := List.length_eq_one_iff.mp (alike.symm.trans one)
    simpa using same
  · cases texts with
    | nil => exact (List.length_eq_zero_iff.mp alike.symm).symm
    | cons text rest =>
      have split : ∀ all : List String, all ≠ [] → (∀ text ∈ all, '|' ∉ text.toList) →
          ("|".intercalate all).toList.splitOn '|' = all.map String.toList := by
        intro all stated plain
        have sign : "|".toList = ['|'] := rfl
        rw [String.toList_intercalate, sign, List.splitOn_intercalate]
        · exact List.forall_mem_map.mpr plain
        · simpa using stated
      have some_other : others ≠ [] := List.length_pos_iff.mp (alike ▸ Nat.succ_pos _)
      have parts := congrArg (fun key => key.toList.splitOn '|') same
      rw [split _ (List.cons_ne_nil _ _) fun text member => plain text (List.mem_append_left _ member),
        split _ some_other fun text member => plain text (List.mem_append_right _ member)] at parts
      exact List.map_injective_iff.mpr (fun _ _ => String.toList_inj.mp) parts

/-- Records that differ in the text of a key field have different keys, where there is one key field or no such text
holds the sign. -/
theorem keyFor_ne {second_key : String} (first_keyed : keyFor repr keyFields first = .ok key)
    (second_keyed : keyFor repr keyFields second = .ok second_key)
    (plain : keyFields.length = 1 ∨
      ∀ text ∈ keyTexts repr keyFields first ++ keyTexts repr keyFields second, '|' ∉ text.toList)
    (differ : keyTexts repr keyFields first ≠ keyTexts repr keyFields second) : key ≠ second_key := by
  rintro rfl
  have same := (keyFor_eq_ok.mp first_keyed).2.trans (keyFor_eq_ok.mp second_keyed).2.symm
  have alike : (keyTexts repr keyFields first).length = (keyTexts repr keyFields second).length := by
    rw [keyTexts, keyTexts, List.length_map, List.length_map]
  refine differ (intercalate_inj alike (plain.imp_left fun one => ?_) same)
  rw [keyTexts, List.length_map, one]

end Keys

/-! ## The rows of a file -/

section Rows

variable {repr : Json → String} {spec : SourceSpec} {collection : CollectionSpec} {payload : Dict String Json}
  {records : List Json} {items : List ConfigItem}

def IsRow (repr : Json → String) (collection : CollectionSpec) (record : Json) (item : ConfigItem) : Prop :=
  item.collection = collection.collection ∧ item.payload = record ∧
    ∃ entries, record = .object entries ∧ keyFor repr collection.keyFields entries = .ok item.itemKey

theorem rows_of_splitRecords {index : Nat} {seen : List (String × Nat)}
    (done : splitRecords repr spec collection index seen records = .ok items) :
    List.Forall₂ (IsRow repr collection) records items := by
  induction records generalizing index seen items with
  | nil =>
    cases done
    exact .nil
  | cons record rest ih =>
    cases record with
    | object record =>
      rw [splitRecords] at done
      split at done
      · cases done
      · next itemKey keyed =>
          split at done
          · cases done
          · split at done
            · cases done
            · split at done
              · cases done
              · next later rests =>
                  cases done
                  exact .cons ⟨rfl, rfl, record, rfl, keyed⟩ (ih rests)
    | _ => cases done

variable {collections : List CollectionSpec}

/-- The records of a collection are split by themselves, and their rows are among the file's. -/
theorem splitRecords_of_splitCollections (done : splitCollections repr spec payload collections = .ok items)
    (declared : collection ∈ collections) (present : payload.get? collection.collection = some (.array records)) :
    ∃ part, splitRecords repr spec collection 0 [] records = .ok part ∧ part ⊆ items := by
  induction collections generalizing items with
  | nil => cases declared
  | cons head rest ih =>
    rw [splitCollections] at done
    rcases List.mem_cons.mp declared with rfl | later
    · rw [present] at done
      dsimp only at done
      split at done
      · cases done
      · next part split =>
          split at done
          · cases done
          · cases done
            exact ⟨part, split, List.subset_append_left _ _⟩
    · split at done
      · exact ih done later
      · exact ih done later
      · split at done
        · cases done
        · split at done
          · cases done
          · next more others =>
              cases done
              obtain ⟨part, split, inside⟩ := ih others later
              exact ⟨part, split, fun _ member => List.mem_append_right _ (inside member)⟩
      · cases done

theorem keys_nodup_of_contributes {parts : List (List ConfigItem)}
    (contributes : List.Forall₂ (Contributes spec payload) collections parts)
    (once : (collections.map CollectionSpec.collection).Nodup) : (parts.flatten.map ConfigItem.key).Nodup := by
  induction contributes with
  | nil => exact List.nodup_nil
  | @cons collection part others _ head rest ih =>
    rw [List.map_cons, List.nodup_cons] at once
    rw [List.flatten_cons, List.map_append]
    refine List.Nodup.append ?_ (ih once.2) ?_
    · rcases head with ⟨rfl, _⟩ | ⟨records, _, holds⟩
      · exact List.nodup_nil
      · refine List.Nodup.of_map Prod.snd ?_
        rw [List.map_map]
        exact holds.keys
    · intro key here later
      obtain ⟨item, inside, rfl⟩ := List.mem_map.mp here
      obtain ⟨other, there, same⟩ := List.mem_map.mp later
      have own : item.collection = collection.collection := by
        rcases head with ⟨rfl, _⟩ | ⟨records, _, holds⟩
        · cases inside
        · exact holds.collections item inside
      have shared := congrArg Prod.fst same
      have declared := (mem_contributed rest there).2
      rw [show other.collection = collection.collection from shared.trans own] at declared
      exact once.1 declared

/-- Of a file that is accepted, no two records of a collection have one key, each has a row under its key, and no two
rows have one collection and key where no collection is declared twice.  Records that differ in the text of a key field
have different keys, where there is one key field or no such text holds the sign. -/
theorem accepted_keys_apart (repr : Json → String) (spec : SourceSpec) (payload : Dict String Json)
    (items : List ConfigItem) (accepted : splitPayload repr spec payload = .ok items) :
    (∀ collection ∈ spec.collections, ∀ records, payload.get? collection.collection = some (.array records) →
      ∃ keys : List String, keys.Nodup ∧ List.Forall₂ (fun record key =>
        (∃ entries, record = .object entries ∧ keyFor repr collection.keyFields entries = .ok key) ∧
          ∃ item ∈ items, item.key = (collection.collection, key) ∧ item.payload = record) records keys) ∧
    (spec.names.Nodup → (items.map ConfigItem.key).Nodup) ∧
    ∀ collection ∈ spec.collections, ∀ first second first_key second_key,
      keyFor repr collection.keyFields first = .ok first_key →
      keyFor repr collection.keyFields second = .ok second_key →
      (collection.keyFields.length = 1 ∨ ∀ text ∈
        keyTexts repr collection.keyFields first ++ keyTexts repr collection.keyFields second, '|' ∉ text.toList) →
      keyTexts repr collection.keyFields first ≠ keyTexts repr collection.keyFields second →
        first_key ≠ second_key := by
  refine ⟨fun collection declared records present => ?_, fun once => ?_, ?_⟩
  · rw [splitPayload] at accepted
    split at accepted
    · cases accepted
    · next split =>
        obtain ⟨part, own, inside⟩ := splitRecords_of_splitCollections split declared present
        split at accepted
        · cases accepted
        · cases accepted
          refine ⟨part.map ConfigItem.itemKey, (holds_of_splitRecords own).1.keys, ?_⟩
          rw [List.forall₂_map_right_iff]
          have rows : List.Forall₂ (flip (IsRow repr collection)) part records :=
            List.Forall₂.flip (rows_of_splitRecords own)
          have members := (List.forall₂_and_left (p := fun item => item ∈ part) part records).mpr ⟨fun _ => id, rows⟩
          refine List.Forall₂.flip (members.imp ?_)
          rintro item record ⟨member, named, held, keyed⟩
          refine ⟨keyed, item, ?_, ?_, held⟩
          · exact List.mem_append_left _ (inside member)
          · rw [ConfigItem.key, named]
  · obtain ⟨parts, contributes, rfl⟩ := splitPayload_eq_ok accepted
    rw [List.map_append]
    refine List.Nodup.append (keys_nodup_of_contributes contributes once) (List.nodup_singleton _) ?_
    intro key here last
    obtain ⟨item, inside, rfl⟩ := List.mem_map.mp here
    have declared := (mem_contributed contributes inside).2
    rw [List.map_singleton, List.mem_singleton] at last
    rw [show item.collection = documentCollection from congrArg Prod.fst last] at declared
    obtain ⟨collection, _, same⟩ := List.mem_map.mp declared
    exact collection.notDocument same
  · exact fun _ _ _ _ _ _ => keyFor_ne

end Rows

/-! ## Two fields -/

/-- A collection keyed by two fields. -/
def sqlTargets : CollectionSpec := ⟨"sql_targets", ["sql_id", "target_no"], "", by decide, by decide, by decide⟩

def sqlTargetsFile : SourceSpec := ⟨"sql_commands.json", "sql_tasks", "", "", [sqlTargets], by decide⟩

def target (sqlId targetNo : String) : List (String × Json) := [("sql_id", .string sqlId), ("target_no", .string targetNo)]

def twoTargets : Dict String Json :=
  Dict.empty.set "sql_targets" (.array [.object (target "a" "1"), .object (target "b" "1")])

theorem accepted_keys_apart_target :
    ∃ items, splitPayload (fun _ => "") sqlTargetsFile twoTargets = .ok items ∧ (items.map ConfigItem.key).Nodup :=
  ⟨_, rfl, (accepted_keys_apart (fun _ => "") sqlTargetsFile twoTargets _ rfl).2.1 (by decide)⟩

/-- Two records that differ in both key fields have one key. -/
theorem different_records_one_key :
    field (target "a|b" "c") "sql_id" ≠ field (target "a" "b|c") "sql_id" ∧
      keyFor (fun _ => "") sqlTargets.keyFields (target "a|b" "c") = .ok "a|b|c" ∧
        keyFor (fun _ => "") sqlTargets.keyFields (target "a" "b|c") = .ok "a|b|c" := by
  refine ⟨?_, rfl, rfl⟩
  intro same
  have texts : "a|b" = "a" := Json.string.inj (Option.some.inj same)
  exact absurd texts (by decide)

end DbaBrain.Db.ConfigSync
