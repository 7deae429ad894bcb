import DbaBrain.Db.ConfigStore
import DbaBrain.Foundation.Dict
import DbaBrain.Foundation.Text

/-!
# Config files and their rows

A file is split into its keyed records and one document row with the rest, and
is rebuilt from the rows.
-/

namespace DbaBrain.Db.ConfigSync

open DbaBrain.Foundation DbaBrain.Foundation.KeyedWrites DbaBrain.Foundation.Selection DbaBrain.Foundation.Text
  DbaBrain.Db.ConfigStore

/-! ## The catalog -/

/-- One keyed array of a file, as the catalog accepts it. -/
structure CollectionSpec where
  collection : String
  keyFields : List String
  labelField : String
  named : collection ≠ ""
  keyed : keyFields ≠ []
  notDocument : collection ≠ documentCollection

/-- One config file, as the catalog accepts it. -/
structure SourceSpec where
  file : String
  appCode : String
  displayName : String
  description : String
  collections : List CollectionSpec
  named : file ≠ ""

/-- The keys of the file that hold a collection. -/
def SourceSpec.names (spec : SourceSpec) : List String := spec.collections.map CollectionSpec.collection

/-! ## Values as Python reads them -/

/-- `str` of a value; `repr` prints the arrays and the objects. -/
def str (repr : Json → String) : Json → String
  | .null => "None"
  | .bool true => "True"
  | .bool false => "False"
  | .int value => value.repr
  | .float value => value.text
  | .string value => value
  | value => repr value

def truthy : Json → Bool
  | .null => false
  | .bool value => value
  | .int value => value ≠ 0
  | .float value => value.text ∉ ["0.0", "-0.0"]
  | .string value => value ≠ ""
  | .array items => !items.isEmpty
  | .object entries => !entries.isEmpty

/-- The value of a field. -/
def field (record : List (String × Json)) (name : String) : Option Json :=
  (record.find? fun entry => entry.1 = name).map Prod.snd

/-! ## Literal secrets -/

def secretKeys : List String :=
  ["password", "passwd", "pwd", "secret", "api_key", "apikey", "private_key", "bot_token", "token", "access_token"]

/-- The key, in lower case, is a secret's; the Kelvin sign is a letter of these in upper case. -/
def isSecretKey (key : String) : Bool := asciiLower (replaceChar '\u212a' 'k' (strip key)) ∈ secretKeys

def isLiteral : Json → Bool
  | .string value => strip value ≠ ""
  | _ => false

mutual

/-- The path of the first literal secret in a value at a path. -/
def secretIn (path : String) : Json → Option String
  | .object entries => secretInEntries path entries
  | .array items => secretInItems path 0 items
  | _ => none

def secretInEntries (path : String) : List (String × Json) → Option String
  | [] => none
  | (key, value) :: rest =>
      let child := if path = "" then key else path ++ "." ++ key
      if isSecretKey key && isLiteral value then some child
      else
        match secretIn child value with
        | some found => some found
        | none => secretInEntries path rest

def secretInItems (path : String) (index : Nat) : List Json → Option String
  | [] => none
  | value :: rest =>
      match secretIn (path ++ "[" ++ toString index ++ "]") value with
      | some found => some found
      | none => secretInItems path (index + 1) rest

end

/-! ## Splitting -/

/-- Why a file cannot be synced as written. -/
inductive SyncError
  | noField (file collection fieldName : String) (keys : List String)
  | notArray (file collection : String)
  | notObject (file collection : String) (index : Nat)
  | repeatedKey (file collection : String) (index : Nat) (itemKey : String) (first : Nat) (keyFields : List String)
  | literalSecret (place child : String)
  | unreadable (reason : String)
  deriving DecidableEq

/-- `CollectionSpec.key_for`: the key, or the field the record lacks. -/
def keyFor (repr : Json → String) (keyFields : List String) (record : List (String × Json)) : Except String String :=
  match keyFields.find? fun name => (field record name).isNone with
  | some missing => .error missing
  | none => .ok ("|".intercalate (keyFields.map fun name => str repr ((field record name).getD .null)))

def labelOf (repr : Json → String) (labelField : String) (record : List (String × Json)) : String :=
  if labelField = "" then ""
  else
    let value := (field record labelField).getD (.string "")
    if truthy value then str repr value else ""

section Split

variable (repr : Json → String) (spec : SourceSpec)

def recordItem (collection : CollectionSpec) (itemKey : String) (index : Nat) (record : List (String × Json)) :
    ConfigItem where
  sourceFile := spec.file
  collection := collection.collection
  itemKey := itemKey
  payload := .object record
  itemOrd := index
  label := labelOf repr collection.labelField record
  note := ""
  metadata := []

/-- The records of a collection from an index on; `seen` holds the keys of those before it. -/
def splitRecords (collection : CollectionSpec) : Nat → List (String × Nat) → List Json →
    Except SyncError (List ConfigItem)
  | _, _, [] => .ok []
  | index, seen, .object record :: rest =>
      match keyFor repr collection.keyFields record with
      | .error missing =>
          .error (.noField spec.file collection.collection missing
            (sortedBy id (record.map Prod.fst)))
      | .ok itemKey =>
          match seen.find? fun entry => entry.1 = itemKey with
          | some (_, first) =>
              .error (.repeatedKey spec.file collection.collection index itemKey first collection.keyFields)
          | none =>
              match secretIn "" (.object record) with
              | some child =>
                  .error (.literalSecret (spec.file ++ ":" ++ collection.collection ++ "[" ++ itemKey ++ "]") child)
              | none =>
                  match splitRecords collection (index + 1) ((itemKey, index) :: seen) rest with
                  | .error reason => .error reason
                  | .ok items => .ok (recordItem repr spec collection itemKey index record :: items)
  | index, _, _ :: _ => .error (.notObject spec.file collection.collection index)

def splitCollections (payload : Dict String Json) : List CollectionSpec → Except SyncError (List ConfigItem)
  | [] => .ok []
  | collection :: rest =>
      match payload.get? collection.collection with
      | none => splitCollections payload rest
      | some .null => splitCollections payload rest
      | some (.array records) =>
          match splitRecords repr spec collection 0 [] records with
          | .error reason => .error reason
          | .ok items =>
              match splitCollections payload rest with
              | .error reason => .error reason
              | .ok more => .ok (items ++ more)
      | some _ => .error (.notArray spec.file collection.collection)

/-- What is no collection's. -/
def remainder (payload : Dict String Json) : Dict String Json := payload.restrict fun key => key ∉ spec.names

def documentItem (document : Dict String Json) : ConfigItem where
  sourceFile := spec.file
  collection := documentCollection
  itemKey := documentKey
  payload := .object document.entries
  itemOrd := 0
  label := if spec.displayName = "" then spec.file else spec.displayName
  note := ""
  metadata := []

def splitPayload (payload : Dict String Json) : Except SyncError (List ConfigItem) :=
  match splitCollections repr spec payload spec.collections with
  | .error reason => .error reason
  | .ok items =>
      match secretIn "" (.object (remainder spec payload).entries) with
      | some child => .error (.literalSecret (spec.file ++ ":" ++ documentCollection) child)
      | none => .ok (items ++ [documentItem spec (remainder spec payload)])

end Split

/-! ## Rebuilding -/

/-- By their place in the array, then by their key. -/
def placeOf (item : ConfigItem) : Int ×ₗ String := toLex (item.itemOrd, item.itemKey)

/-- The rows of a collection, as the array they rebuild. -/
def arrayOf (rows : List ConfigItem) : Json := .array ((sortedBy placeOf rows).map ConfigItem.payload)

def rowsOf (items : List ConfigItem) (collection : String) : List ConfigItem :=
  items.filter fun item => item.collection = collection

def documentOf (items : List ConfigItem) : Dict String Json :=
  (rowsOf items documentCollection).foldl (fun document item =>
    match item.payload with
    | .object entries => document.update entries
    | _ => document) Dict.empty

def rebuildPayload (spec : SourceSpec) (items : List ConfigItem) : Dict String Json :=
  spec.collections.foldl (fun rebuilt collection =>
    let rows := rowsOf items collection.collection
    if rows = [] then rebuilt else rebuilt.set collection.collection (arrayOf rows)) (documentOf items)

/-! ## What a split holds -/

structure Holds (spec : SourceSpec) (collection : String) (records : List Json) (items : List ConfigItem) : Prop where
  payloads : items.map ConfigItem.payload = records
  ordered : items.Pairwise fun first second => first.itemOrd < second.itemOrd
  keys : (items.map ConfigItem.itemKey).Nodup
  collections : ∀ item ∈ items, item.collection = collection
  plain : ∀ item ∈ items, item.sourceFile = spec.file ∧ item.note = "" ∧ item.metadata = []

section Split

variable {repr : Json → String} {spec : SourceSpec} {collection : CollectionSpec} {payload : Dict String Json}
  {records : List Json} {items : List ConfigItem}

theorem holds_of_splitRecords {index : Nat} {seen : List (String × Nat)}
    (done : splitRecords repr spec collection index seen records = .ok items) :
    Holds spec collection.collection records items ∧ (∀ item ∈ items, (index : Int) ≤ item.itemOrd) ∧
      ∀ item ∈ items, item.itemKey ∉ seen.map Prod.fst := by
  induction records generalizing index seen items with
  | nil =>
    cases done
    exact ⟨⟨rfl, .nil, .nil, nofun, nofun⟩, nofun, nofun⟩
  | cons record rest ih =>
    cases record with
    | object record =>
      rw [splitRecords] at done
      split at done
      · cases done
      · rename_i itemKey _
        split at done
        · cases done
        · rename_i fresh
          split at done
          · cases done
          · split at done
            · cases done
            · rename_i later rests
              cases done
              obtain ⟨holds, above, apart⟩ := ih rests
              have unseen : itemKey ∉ seen.map Prod.fst := by
                rintro member
                obtain ⟨entry, present, same⟩ := List.mem_map.mp member
                have missing := List.find?_eq_none.mp fresh entry present
                simp [same] at missing
              have other : ∀ item ∈ later, item.itemKey ≠ itemKey ∧ item.itemKey ∉ seen.map Prod.fst := by
                intro item member
                have both := apart item member
                rw [List.map_cons, List.mem_cons, not_or] at both
                exact both
              refine ⟨⟨?_, ?_, ?_, ?_, ?_⟩, ?_, ?_⟩
              · rw [List.map_cons, holds.payloads]
                rfl
              · refine List.pairwise_cons.mpr ⟨fun item member => ?_, holds.ordered⟩
                have next := above item member
                have place : (recordItem repr spec collection itemKey index record).itemOrd = index := rfl
                rw [place]
                push_cast at next
                omega
              · rw [List.map_cons, List.nodup_cons]
                refine ⟨fun member => ?_, holds.keys⟩
                obtain ⟨item, present, same⟩ := List.mem_map.mp member
                exact (other item present).1 same
              · exact List.forall_mem_cons.mpr ⟨rfl, holds.collections⟩
              · exact List.forall_mem_cons.mpr ⟨⟨rfl, rfl, rfl⟩, holds.plain⟩
              · refine List.forall_mem_cons.mpr ⟨le_refl _, fun item member => ?_⟩
                have next := above item member
                push_cast at next
                omega
              · exact List.forall_mem_cons.mpr ⟨unseen, fun item member => (other item member).2⟩
    | _ => cases done

def Contributes (spec : SourceSpec) (payload : Dict String Json) (collection : CollectionSpec)
    (items : List ConfigItem) : Prop :=
  (items = [] ∧ (payload.get? collection.collection = none ∨ payload.get? collection.collection = some .null)) ∨
    ∃ records, payload.get? collection.collection = some (.array records) ∧
      Holds spec collection.collection records items

variable {collections : List CollectionSpec} {item : ConfigItem} {name : String}

theorem contributes_of_splitCollections (done : splitCollections repr spec payload collections = .ok items) :
    ∃ parts, List.Forall₂ (Contributes spec payload) collections parts ∧ items = parts.flatten := by
  induction collections generalizing items with
  | nil =>
    cases done
    exact ⟨[], .nil, rfl⟩
  | cons collection rest ih =>
    rw [splitCollections] at done
    split at done
    · rename_i absent
      obtain ⟨parts, contributes, rfl⟩ := ih done
      exact ⟨[] :: parts, .cons (Or.inl ⟨rfl, Or.inl absent⟩) contributes, rfl⟩
    · rename_i null
      obtain ⟨parts, contributes, rfl⟩ := ih done
      exact ⟨[] :: parts, .cons (Or.inl ⟨rfl, Or.inr null⟩) contributes, rfl⟩
    · rename_i records present
      split at done
      · cases done
      · rename_i first split
        split at done
        · cases done
        · rename_i more others
          cases done
          obtain ⟨parts, contributes, rfl⟩ := ih others
          exact ⟨first :: parts, .cons (Or.inr ⟨records, present, (holds_of_splitRecords split).1⟩) contributes, rfl⟩
    · cases done

/-- A payload that is accepted is split into what its collections contribute and the rest of it. -/
theorem splitPayload_eq_ok (done : splitPayload repr spec payload = .ok items) :
    ∃ parts, List.Forall₂ (Contributes spec payload) spec.collections parts ∧
      items = parts.flatten ++ [documentItem spec (remainder spec payload)] := by
  rw [splitPayload] at done
  split at done
  · cases done
  · rename_i split
    obtain ⟨parts, contributes, rfl⟩ := contributes_of_splitCollections split
    split at done
    · cases done
    · cases done
      exact ⟨parts, contributes, rfl⟩

variable {parts : List (List ConfigItem)}

theorem mem_contributed (contributes : List.Forall₂ (Contributes spec payload) collections parts)
    (member : item ∈ parts.flatten) :
    (item.sourceFile = spec.file ∧ item.note = "" ∧ item.metadata = []) ∧
      item.collection ∈ collections.map CollectionSpec.collection := by
  induction contributes with
  | nil => cases member
  | cons head _ ih =>
    rw [List.flatten_cons, List.mem_append] at member
    rcases member with here | later
    · rcases head with ⟨rfl, _⟩ | ⟨records, _, holds⟩
      · cases here
      · exact ⟨holds.plain item here, List.mem_cons.mpr (Or.inl (holds.collections item here))⟩
    · obtain ⟨plain, declared⟩ := ih later
      exact ⟨plain, List.mem_cons_of_mem _ declared⟩

/-- Every item is the file's, and of a collection it declares or of its document. -/
theorem mem_split (done : splitPayload repr spec payload = .ok items) (member : item ∈ items) :
    (item.sourceFile = spec.file ∧ item.note = "" ∧ item.metadata = []) ∧
      (item.collection = documentCollection ∨ item.collection ∈ spec.names) := by
  obtain ⟨parts, contributes, rfl⟩ := splitPayload_eq_ok done
  rcases List.mem_append.mp member with there | last
  · obtain ⟨plain, declared⟩ := mem_contributed contributes there
    exact ⟨plain, Or.inr declared⟩
  · obtain rfl := List.mem_singleton.mp last
    exact ⟨⟨rfl, rfl, rfl⟩, Or.inl rfl⟩

/-! ## What is rebuilt -/

theorem get?_rebuildPayload (items : List ConfigItem) (key : String) :
    (rebuildPayload spec items).get? key =
      if key ∈ spec.names ∧ rowsOf items key ≠ [] then some (arrayOf (rowsOf items key))
      else (documentOf items).get? key := by
  have folded : ∀ (collections : List CollectionSpec) (document : Dict String Json),
      (collections.foldl (fun rebuilt collection =>
        let rows := rowsOf items collection.collection
        if rows = [] then rebuilt else rebuilt.set collection.collection (arrayOf rows)) document).get? key =
      if key ∈ collections.map CollectionSpec.collection ∧ rowsOf items key ≠ [] then some (arrayOf (rowsOf items key))
      else document.get? key := by
    intro collections
    induction collections with
    | nil => simp
    | cons collection rest ih =>
      intro document
      rw [List.foldl_cons, ih, List.map_cons]
      by_cases later : key ∈ rest.map CollectionSpec.collection ∧ rowsOf items key ≠ []
      · rw [if_pos later, if_pos ⟨List.mem_cons_of_mem _ later.1, later.2⟩]
      · rw [if_neg later]
        rcases eq_or_ne key collection.collection with rfl | different
        · by_cases none_held : rowsOf items collection.collection = []
          · simp [none_held]
          · simp [none_held, Dict.get?_set]
        · have still : ¬ (key ∈ collection.collection :: rest.map CollectionSpec.collection ∧ rowsOf items key ≠ []) := by
            rintro ⟨member, held⟩
            exact later ⟨(List.mem_cons.mp member).resolve_left different, held⟩
          rw [if_neg still]
          simp only
          split
          · rfl
          · rw [Dict.get?_set, if_neg different]
  exact folded spec.collections (documentOf items)

/-- A collection's items are its own rows and no other's. -/
theorem Contributes.rowsOf (contributes : Contributes spec payload collection items) (name : String) :
    rowsOf items name = if collection.collection = name then items else [] := by
  have own : ∀ item ∈ items, item.collection = collection.collection := by
    rcases contributes with ⟨rfl, _⟩ | ⟨records, _, holds⟩
    · exact nofun
    · exact holds.collections
  rw [ConfigSync.rowsOf]
  split
  · rename_i same
    exact List.filter_eq_self.mpr fun item member => decide_eq_true ((own item member).trans same)
  · rename_i different
    exact List.filter_eq_nil_iff.mpr fun item member same =>
      different ((own item member).symm.trans (of_decide_eq_true same))

section Parts

variable {collections : List CollectionSpec} {parts : List (List ConfigItem)} {name : String}

theorem rowsOf_append (first second : List ConfigItem) (name : String) :
    rowsOf (first ++ second) name = rowsOf first name ++ rowsOf second name := List.filter_append _ _

theorem rowsOf_flatten_of_not_mem (contributes : List.Forall₂ (Contributes spec payload) collections parts)
    (absent : name ∉ collections.map CollectionSpec.collection) : rowsOf parts.flatten name = [] := by
  induction contributes with
  | nil => rfl
  | cons head _ ih =>
    rw [List.map_cons, List.mem_cons, not_or] at absent
    rw [List.flatten_cons, rowsOf_append, head.rowsOf, if_neg (Ne.symm absent.1), ih absent.2]
    rfl

/-- A collection the payload does not have, or has as null, has no rows. -/
theorem rowsOf_flatten_of_no_array (contributes : List.Forall₂ (Contributes spec payload) collections parts)
    (absent : payload.get? name = none ∨ payload.get? name = some .null) : rowsOf parts.flatten name = [] := by
  induction contributes with
  | nil => rfl
  | cons head _ ih =>
    rw [List.flatten_cons, rowsOf_append, head.rowsOf, ih, List.append_nil]
    split
    · rename_i same
      rcases head with ⟨rfl, _⟩ | ⟨records, present, _⟩
      · rfl
      · rw [same] at present
        rw [present] at absent
        rcases absent with none_held | null
        · cases none_held
        · cases null
    · rfl

theorem array_of_mem (contributes : List.Forall₂ (Contributes spec payload) collections parts)
    (declared : name ∈ collections.map CollectionSpec.collection) {value : Json} (present : payload.get? name = some value) :
    value = .null ∨ ∃ records, value = .array records := by
  induction contributes with
  | nil => cases declared
  | cons head _ ih =>
    rcases List.mem_cons.mp declared with rfl | later
    · rcases head with ⟨_, none_held | null⟩ | ⟨records, held, _⟩
      · exact absurd (none_held.symm.trans present) nofun
      · exact Or.inl (Option.some.inj (present.symm.trans null))
      · exact Or.inr ⟨records, Option.some.inj (present.symm.trans held)⟩
    · exact ih later

/-- A collection has its records as often as it is declared. -/
theorem length_rowsOf_flatten (contributes : List.Forall₂ (Contributes spec payload) collections parts)
    (present : payload.get? name = some (.array records)) :
    (rowsOf parts.flatten name).length = (collections.map CollectionSpec.collection).count name * records.length := by
  induction contributes with
  | nil => simp [ConfigSync.rowsOf]
  | cons head _ ih =>
    rw [List.flatten_cons, rowsOf_append, head.rowsOf, List.length_append, ih, List.map_cons, List.count_cons]
    split
    · rename_i same
      rcases head with ⟨_, none_held | null⟩ | ⟨own, held, holds⟩
      · rw [same, present] at none_held
        cases none_held
      · rw [same, present] at null
        cases null
      · rw [same, present] at held
        cases held
        rw [← holds.payloads, List.length_map]
        simp [same]
        ring
    · rename_i different
      simp [different]

theorem holds_rowsOf_flatten (contributes : List.Forall₂ (Contributes spec payload) collections parts)
    (present : payload.get? name = some (.array records))
    (once : (collections.map CollectionSpec.collection).count name = 1) :
    Holds spec name records (rowsOf parts.flatten name) := by
  induction contributes with
  | nil => cases once
  | @cons collection part others _ head rest ih =>
    rw [List.flatten_cons, rowsOf_append, head.rowsOf]
    rw [List.map_cons, List.count_cons] at once
    split
    · rename_i same
      have gone : name ∉ others.map CollectionSpec.collection := by
        refine List.count_eq_zero.mp ?_
        exact Nat.succ.inj (by simpa [same] using once)
      rw [rowsOf_flatten_of_not_mem rest gone, List.append_nil]
      rcases head with ⟨_, none_held | null⟩ | ⟨own, held, holds⟩
      · rw [same, present] at none_held
        cases none_held
      · rw [same, present] at null
        cases null
      · rw [same, present] at held
        cases held
        exact same ▸ holds
    · rename_i different
      rw [List.nil_append]
      exact ih (by simpa [different] using once)

end Parts

theorem Holds.arrayOf (holds : Holds spec name records items) : arrayOf items = .array records := by
  have sorted : items.Pairwise fun first second => placeOf first ≤ placeOf second :=
    holds.ordered.imp fun less => Prod.Lex.toLex_le_toLex.mpr (Or.inl less)
  rw [ConfigSync.arrayOf, sortedBy_eq_self sorted, holds.payloads]

/-- The declared collections of the payload that a rebuild gives back: arrays with a record in them,
declared once. -/
def Restorable (spec : SourceSpec) (payload : Dict String Json) : Prop :=
  ∀ name ∈ spec.names, ∀ value, payload.get? name = some value →
    value ≠ .null ∧ value ≠ .array [] ∧ spec.names.count name = 1

theorem get?_documentOf_split (contributes : List.Forall₂ (Contributes spec payload) spec.collections parts)
    (name : String) :
    (documentOf (parts.flatten ++ [documentItem spec (remainder spec payload)])).get? name =
      if name ∈ spec.names then none else payload.get? name := by
  have undeclared : documentCollection ∉ spec.collections.map CollectionSpec.collection := by
    intro member
    obtain ⟨collection, _, same⟩ := List.mem_map.mp member
    exact collection.notDocument same
  have rows : rowsOf (parts.flatten ++ [documentItem spec (remainder spec payload)]) documentCollection =
      [documentItem spec (remainder spec payload)] := by
    rw [rowsOf_append, rowsOf_flatten_of_not_mem contributes undeclared]
    rfl
  rw [documentOf, rows, List.foldl_cons, List.foldl_nil]
  simp only [documentItem]
  rw [Dict.get?_update, Dict.get?_empty, Option.or_none, remainder, Dict.get?_restrict]
  by_cases declared : name ∈ spec.names
  · simp [declared]
  · simp [declared]

theorem rowsOf_split (declared : name ∈ spec.names) :
    rowsOf (parts.flatten ++ [documentItem spec (remainder spec payload)]) name = rowsOf parts.flatten name := by
  have other : documentCollection ≠ name := by
    rintro rfl
    obtain ⟨collection, _, same⟩ := List.mem_map.mp declared
    exact collection.notDocument same
  rw [rowsOf_append]
  simp [ConfigSync.rowsOf, documentItem, other]

/-- A rebuild of what was split is the payload exactly when it is restorable. -/
theorem rebuild_split_iff (done : splitPayload repr spec payload = .ok items) :
    Dict.Same (rebuildPayload spec items) payload ↔ Restorable spec payload := by
  obtain ⟨parts, contributes, rfl⟩ := splitPayload_eq_ok done
  constructor
  · intro same name declared value present
    have rebuilt := same name
    rw [get?_rebuildPayload, get?_documentOf_split contributes, rowsOf_split declared, present, if_pos declared] at rebuilt
    have some_row : rowsOf parts.flatten name ≠ [] := by
      intro nothing
      simp [nothing] at rebuilt
    rw [if_pos ⟨declared, some_row⟩] at rebuilt
    obtain rfl := Option.some.inj rebuilt
    rw [arrayOf] at present
    have often := length_rowsOf_flatten contributes present
    rw [List.length_map, (sortedBy_perm _ _).length_eq] at often
    have positive : 0 < (rowsOf parts.flatten name).length := List.length_pos_iff.mpr some_row
    refine ⟨nofun, ?_, ?_⟩
    · rw [arrayOf]
      intro nothing
      have lengths := congrArg List.length (Json.array.inj nothing)
      rw [List.length_map, (sortedBy_perm _ _).length_eq, List.length_nil] at lengths
      omega
    · exact Nat.eq_of_mul_eq_mul_right positive (often.symm.trans (Nat.one_mul _).symm)
  · intro restorable name
    rw [get?_rebuildPayload, get?_documentOf_split contributes]
    by_cases declared : name ∈ spec.names
    · rw [rowsOf_split declared, if_pos declared]
      cases present : payload.get? name with
      | none => simp [rowsOf_flatten_of_no_array contributes (Or.inl present)]
      | some value =>
        obtain ⟨notNull, notEmpty, once⟩ := restorable name declared value present
        obtain ⟨records, rfl⟩ : ∃ records, value = .array records :=
          (array_of_mem contributes declared present).resolve_left notNull
        have holds := holds_rowsOf_flatten contributes present once
        rw [if_pos, holds.arrayOf]
        refine ⟨declared, fun nothing => notEmpty ?_⟩
        rw [← holds.payloads, nothing]
        rfl
    · simp [declared]

end Split

end DbaBrain.Db.ConfigSync
