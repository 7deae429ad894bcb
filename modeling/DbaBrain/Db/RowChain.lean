import DbaBrain.Db.BackupCatalog
import DbaBrain.Foundation.Dict
import DbaBrain.Foundation.HashChain

/-!
# The hash chain of the catalog's rows

`verify_row_chain` walks each entry's rows in order and recomputes their hashes.
An entry verifies exactly when its hashed rows are linked and follow the rows
from before the chain.
-/

namespace DbaBrain.Db.BackupCatalog

open DbaBrain.Foundation DbaBrain.Foundation.Sql DbaBrain.Foundation.Selection

/-- A row as the walk reads it. -/
abbrev FileRow := Int × (BackupFileColumn → Value)

/-- `broken_at`. -/
structure Break where
  fileId : Int
  fileName : Value
  why : String

structure EntryState where
  backupId : String
  rows : Nat
  chained : Nat
  beforeChain : Nat
  brokenAt : Option Break

structure ChainReport where
  entries : List EntryState
  broken : Nat

section Walk

variable (platform : Platform)

/-- `str(row["backup_id"] or "")`. -/
def entryName (row : FileRow) : String := if truthy (row.2 .backupId) then platform.str (row.2 .backupId) else ""

def isHashed (row : FileRow) : Bool := truthy (row.2 .rowHash)

def judge (found : EntryState × Option Value) (row : FileRow) : EntryState × Option Value :=
  let state := { found.1 with rows := found.1.rows + 1 }
  if state.brokenAt.isSome then (state, found.2)
  else if isHashed row = false then
    if found.2.isSome then
      ({ state with brokenAt := some ⟨row.1, row.2 .fileName, "no row_hash after the chain began"⟩ }, found.2)
    else ({ state with beforeChain := state.beforeChain + 1 }, found.2)
  else if .text (rowHash platform row.2 (hashText platform (found.2.getD .null))) ≠ row.2 .rowHash then
    ({ state with brokenAt := some ⟨row.1, row.2 .fileName,
        "the row is not what was written, or a row before it was removed"⟩ }, found.2)
  else ({ state with chained := state.chained + 1 }, some (row.2 .rowHash))

def newEntry (entry : String) : EntryState × Option Value := (⟨entry, 0, 0, 0, none⟩, none)

def walkRow (entries : Dict String (EntryState × Option Value)) (row : FileRow) :
    Dict String (EntryState × Option Value) :=
  let entry := entryName platform row
  entries.set entry (judge platform ((entries.get? entry).getD (newEntry entry)) row)

/-- The rows a call of `verify_row_chain` reads: an entry's, or all. -/
def chosenRows (rows : List FileRow) (backupId : String) : List FileRow :=
  if backupId = "" then rows else rows.filter fun row => (row.2 .backupId).equal (.text backupId) = some true

def verifyRowChain (rows : List FileRow) (backupId : String) : ChainReport :=
  let entries := (sortedBy (entryName platform) (chosenRows rows backupId)).foldl (walkRow platform) .empty
  let states := entries.entries.map fun entry => entry.2.1
  ⟨sortedBy EntryState.backupId states, (states.filter fun state => state.brokenAt.isSome).length⟩

/-! ## One entry's walk -/

/-- The covered fields by name, as they are hashed. -/
def coveredFields (row : BackupFileColumn → Value) : Json :=
  .object (sortedBy Prod.fst (chainFields.map fun field => (field.2, fieldText platform row field.1)))

/-- The chain the rows of one entry are to form. -/
def rowChain : HashChain FileRow Json String where
  covered row := coveredFields platform row.2
  stored row := hashText platform (row.2 .rowHash)
  digest content previous := platform.sha256 (Json.dumps ⟨true, true⟩ (.array [.string previous, content]))
  start := ""
  digest_ne_start _ _ := platform.sha256_ne _

/-- The column of the hash is a text, or nothing. -/
def TextHash (row : FileRow) : Prop := row.2 .rowHash = .null ∨ ∃ word, row.2 .rowHash = .text word

/-- An entry that verifies: rows from before the chain, then linked ones. -/
structure Clean (rows : List FileRow) : Prop where
  begun : (rows.filter fun row => isHashed row = false) ++ (rows.filter fun row => isHashed row) = rows
  linked : (rowChain platform).Linked (rows.filter fun row => isHashed row)

def walkEntry (entry : String) (rows : List FileRow) : EntryState × Option Value :=
  rows.foldl (judge platform) (newEntry entry)

variable {platform}

theorem clean_nil : Clean platform [] := ⟨rfl, HashChain.linked_nil _⟩

section Concat

variable {rows : List FileRow} {row : FileRow}
variable {keep : FileRow → Bool}

theorem filter_concat_of_pos (kept : keep row = true) : (rows ++ [row]).filter keep = rows.filter keep ++ [row] := by
  rw [List.filter_append, List.filter_cons_of_pos kept, List.filter_nil]

theorem filter_concat_of_neg (dropped : keep row = false) : (rows ++ [row]).filter keep = rows.filter keep := by
  rw [List.filter_append, List.filter_cons_of_neg (by simp [dropped]), List.filter_nil, List.append_nil]

theorem clean_concat_hashed (hashed : isHashed row = true) : Clean platform (rows ++ [row]) ↔
    Clean platform rows ∧ hashText platform (row.2 .rowHash) =
      rowHash platform row.2 ((rowChain platform).head (rows.filter fun row => isHashed row)) := by
  have kept : (rows ++ [row]).filter (fun row => isHashed row) = rows.filter (fun row => isHashed row) ++ [row] :=
    filter_concat_of_pos hashed
  have dropped : (rows ++ [row]).filter (fun row => isHashed row = false) =
      rows.filter fun row => isHashed row = false := filter_concat_of_neg (by simp [hashed])
  constructor
  · intro clean
    have linked := clean.linked
    rw [kept, HashChain.linked_concat] at linked
    refine ⟨⟨?_, linked.1⟩, linked.2⟩
    have begun := clean.begun
    rw [kept, dropped, ← List.append_assoc] at begun
    exact (List.append_inj' begun rfl).1
  · rintro ⟨clean, same⟩
    constructor
    · rw [kept, dropped, ← List.append_assoc, clean.begun]
    · rw [kept]
      exact HashChain.linked_concat.mpr ⟨clean.linked, same⟩

theorem clean_concat_unhashed (unhashed : isHashed row = false) : Clean platform (rows ++ [row]) ↔
    Clean platform rows ∧ (rows.filter fun row => isHashed row) = [] := by
  have dropped : (rows ++ [row]).filter (fun row => isHashed row) = rows.filter fun row => isHashed row :=
    filter_concat_of_neg unhashed
  have kept : (rows ++ [row]).filter (fun row => isHashed row = false) =
      (rows.filter fun row => isHashed row = false) ++ [row] := filter_concat_of_pos (by simp [unhashed])
  constructor
  · intro clean
    have begun := clean.begun
    rw [kept, dropped] at begun
    rcases List.eq_nil_or_concat (rows.filter fun row => isHashed row) with none | ⟨front, last, some⟩
    · rw [none, List.append_nil] at begun
      refine ⟨⟨?_, ?_⟩, none⟩
      · rw [none, List.append_nil]
        exact (List.append_inj' begun rfl).1
      · rw [none]
        exact HashChain.linked_nil _
    · rw [some, List.concat_eq_append, ← List.append_assoc] at begun
      obtain rfl := (List.cons.inj (List.append_inj' begun rfl).2).1
      have member : last ∈ rows.filter fun row => isHashed row := by simp [some]
      have hashed : isHashed last = true := (List.mem_filter.mp member).2
      rw [unhashed] at hashed
      cases hashed
  · rintro ⟨clean, none⟩
    have begun := clean.begun
    rw [none, List.append_nil] at begun
    constructor
    · rw [kept, dropped, none, List.append_nil, begun]
    · rw [dropped, none]
      exact HashChain.linked_nil _

theorem Clean.of_append {front back : List FileRow} (clean : Clean platform (front ++ back)) : Clean platform front := by
  induction back using List.reverseRecOn with
  | nil => rwa [List.append_nil] at clean
  | append_singleton back row ih =>
    rw [← List.append_assoc] at clean
    cases hashed : isHashed row with
    | true => exact ih ((clean_concat_hashed hashed).mp clean).1
    | false => exact ih ((clean_concat_unhashed hashed).mp clean).1

end Concat

variable {row : FileRow} {rows : List FileRow} {backupId : String}

theorem text_rowHash_iff (text : TextHash row) (hashed : isHashed row = true) (expected : String) :
    .text expected = row.2 .rowHash ↔ hashText platform (row.2 .rowHash) = expected := by
  rcases text with null | ⟨word, stored⟩
  · rw [isHashed, null] at hashed
    cases hashed
  · rw [isHashed, stored] at hashed
    rw [stored, hashText, if_pos hashed, Platform.str, Value.text.injEq, eq_comm]

/-- The walk is broken exactly where the rows so far do not verify, and otherwise knows the newest hash. -/
theorem walkEntry_spec (entry : String) (texts : ∀ row ∈ rows, TextHash row) :
    ((walkEntry platform entry rows).1.brokenAt = none ↔ Clean platform rows) ∧
      (Clean platform rows → (walkEntry platform entry rows).2 =
        ((rows.filter fun row => isHashed row).getLast?).map fun row => row.2 .rowHash) := by
  induction rows using List.reverseRecOn with
  | nil => exact ⟨iff_of_true rfl clean_nil, fun _ => rfl⟩
  | append_singleton rows row ih =>
    obtain ⟨same, newest⟩ := ih fun other member => texts other (List.mem_append_left _ member)
    rw [walkEntry, List.foldl_append, List.foldl_cons, List.foldl_nil, ← walkEntry, judge]
    by_cases clean : Clean platform rows
    · have open' := same.mpr clean
      have found := newest clean
      dsimp only
      rw [open', if_neg (by simp)]
      cases hashed : isHashed row with
      | false =>
        rw [if_pos rfl, found, clean_concat_unhashed hashed, filter_concat_of_neg hashed]
        cases latest : (rows.filter fun row => isHashed row).getLast? with
        | none =>
          rw [Option.map_none, if_neg (by simp)]
          have empty := List.getLast?_eq_none_iff.mp latest
          exact ⟨iff_of_true rfl ⟨clean, empty⟩, fun _ => rfl⟩
        | some last =>
          rw [Option.map_some, if_pos Option.isSome_some]
          have apart : (rows.filter fun row => isHashed row) ≠ [] := by
            intro empty
            rw [empty] at latest
            cases latest
          exact ⟨iff_of_false (by simp) fun both => apart both.2, fun both => absurd both.2 apart⟩
      | true =>
        have previous : hashText platform ((walkEntry platform entry rows).2.getD .null) =
            (rowChain platform).head (rows.filter fun row => isHashed row) := by
          rw [found, HashChain.head]
          cases (rows.filter fun row => isHashed row).getLast? with
          | none => rfl
          | some last => rfl
        rw [if_neg (by simp), previous, clean_concat_hashed hashed, filter_concat_of_pos hashed,
          List.getLast?_concat]
        have text := texts row (by simp)
        split
        · rename_i other
          rw [Ne, text_rowHash_iff text hashed] at other
          exact ⟨iff_of_false (by simp) fun both => other both.2, fun both => absurd both.2 other⟩
        · rename_i agrees
          rw [not_not, text_rowHash_iff text hashed] at agrees
          exact ⟨iff_of_true rfl ⟨clean, agrees⟩, fun _ => rfl⟩
    · have broken : (walkEntry platform entry rows).1.brokenAt.isSome = true := by
        rw [Option.isSome_iff_ne_none]
        exact fun none => clean (same.mp none)
      have still : ¬Clean platform (rows ++ [row]) := fun whole => clean whole.of_append
      dsimp only
      rw [if_pos broken]
      refine ⟨iff_of_false ?_ still, fun whole => absurd whole still⟩
      exact fun none => clean (same.mp none)

/-- A break is kept. -/
theorem foldl_judge_broken {state : EntryState × Option Value} {found : Break} (rows : List FileRow)
    (broken : state.1.brokenAt = some found) : (rows.foldl (judge platform) state).1.brokenAt = some found := by
  induction rows generalizing state with
  | nil => exact broken
  | cons row rows ih =>
    rw [List.foldl_cons]
    refine ih ?_
    rw [judge]
    dsimp only
    rw [broken, if_pos Option.isSome_some]

/-- Rows that verify, and one after them that does not: the break is that row's. -/
theorem walkEntry_breaks (entry : String) {front : List FileRow} (back : List FileRow)
    (texts : ∀ other ∈ front ++ [row], TextHash other) (clean : Clean platform front)
    (unclean : ¬Clean platform (front ++ [row])) :
    ∃ found, (walkEntry platform entry (front ++ row :: back)).1.brokenAt = some found ∧ found.fileId = row.1 := by
  have open' := (walkEntry_spec entry fun other member => texts other (List.mem_append_left _ member)).1.mpr clean
  have closed : (walkEntry platform entry (front ++ [row])).1.brokenAt ≠ none :=
    fun none => unclean ((walkEntry_spec entry texts).1.mp none)
  have here : ∃ found, (walkEntry platform entry (front ++ [row])).1.brokenAt = some found ∧ found.fileId = row.1 := by
    rw [walkEntry, List.foldl_append, List.foldl_cons, List.foldl_nil, ← walkEntry] at closed ⊢
    generalize walkEntry platform entry front = found at open' closed ⊢
    rw [judge] at closed ⊢
    dsimp only at closed ⊢
    rw [open', if_neg (by simp)] at closed ⊢
    split
    · split
      · exact ⟨_, rfl, rfl⟩
      · rename_i unhashed fresh
        exact absurd (by rw [if_pos unhashed, if_neg fresh]) closed
    · split
      · exact ⟨_, rfl, rfl⟩
      · rename_i hashed agrees
        exact absurd (by rw [if_neg hashed, if_neg agrees]) closed
  obtain ⟨found, broken, own⟩ := here
  refine ⟨found, ?_, own⟩
  have split : front ++ row :: back = front ++ [row] ++ back := by simp
  rw [split, walkEntry, List.foldl_append, ← walkEntry]
  exact foldl_judge_broken back broken

/-! ## The report -/

theorem filter_chosenRows (texts : ∀ row ∈ rows, ∃ word, row.2 .backupId = .text word) {entry : String}
    (read : backupId = "" ∨ backupId = entry) :
    ((chosenRows rows backupId).filter fun row => entryName platform row = entry) =
      rows.filter fun row => entryName platform row = entry := by
  rw [chosenRows]
  split
  · rfl
  · rename_i given
    obtain rfl := read.resolve_left given
    rw [List.filter_filter]
    apply List.filter_congr
    intro row member
    obtain ⟨word, text⟩ := texts row member
    rw [entryName, text]
    simp only [Value.equal, truthy, Platform.str, Option.some.injEq, decide_eq_true_eq, Bool.and_eq_left_iff_imp]
    split
    · exact id
    · rename_i empty
      intro same
      exact absurd same.symm given

/-- Each entry's state is its own rows' walk. -/
theorem get?_walkRows (rows : List FileRow) (entry : String) :
    (rows.foldl (walkRow platform) .empty).get? entry =
      if ∃ row ∈ rows, entryName platform row = entry then
        some (walkEntry platform entry (rows.filter fun row => entryName platform row = entry))
      else none := by
  induction rows using List.reverseRecOn with
  | nil => simp
  | append_singleton rows row ih =>
    rw [List.foldl_append, List.foldl_cons, List.foldl_nil, walkRow, Dict.get?_set, ih]
    by_cases own : entryName platform row = entry
    · subst own
      have there : ∃ other ∈ rows ++ [row], entryName platform other = entryName platform row :=
        ⟨row, by simp, rfl⟩
      rw [if_pos rfl, if_pos there, filter_concat_of_pos (by simp), walkEntry, List.foldl_append, ← walkEntry,
        List.foldl_cons, List.foldl_nil, ih]
      split
      · rfl
      · rename_i absent
        have none : (rows.filter fun other => entryName platform other = entryName platform row) = [] := by
          rw [List.filter_eq_nil_iff]
          intro other member same
          exact absent ⟨other, member, by simpa using same⟩
        rw [none]
        rfl
    · have apart : ¬entry = entryName platform row := fun same => own same.symm
      have same : (∃ other ∈ rows ++ [row], entryName platform other = entry) ↔
          ∃ other ∈ rows, entryName platform other = entry := by
        simp [own]
      rw [if_neg apart, filter_concat_of_neg (by simp [own])]
      simp only [same]

theorem judge_backupId (found : EntryState × Option Value) (row : FileRow) :
    (judge platform found row).1.backupId = found.1.backupId := by
  rw [judge]
  dsimp only
  split <;> [rfl; (split <;> [(split <;> rfl); (split <;> rfl)])]

theorem walkEntry_backupId (entry : String) (rows : List FileRow) :
    (walkEntry platform entry rows).1.backupId = entry := by
  induction rows using List.reverseRecOn with
  | nil => rfl
  | append_singleton rows row ih =>
    rw [walkEntry, List.foldl_append, List.foldl_cons, List.foldl_nil, ← walkEntry, judge_backupId, ih]

/-- The report's states: one for each entry that has a row, its own rows' walk. -/
theorem mem_entries_iff {state : EntryState} :
    state ∈ (verifyRowChain platform rows backupId).entries ↔
      ∃ row ∈ chosenRows rows backupId, state = (walkEntry platform (entryName platform row)
        ((chosenRows rows backupId).filter fun other => entryName platform other = entryName platform row)).1 := by
  rw [verifyRowChain]
  dsimp only
  rw [mem_sortedBy, List.mem_map]
  constructor
  · rintro ⟨⟨entry, found⟩, member, rfl⟩
    have held := Dict.get?_eq_some_iff.mpr member
    rw [get?_walkRows] at held
    split at held
    · rename_i there
      obtain ⟨row, present, rfl⟩ := there
      rw [mem_sortedBy] at present
      refine ⟨row, present, ?_⟩
      rw [filter_sortedBy] at held
      rw [← Option.some.inj held]
    · cases held
  · rintro ⟨row, present, rfl⟩
    have there : ∃ other ∈ sortedBy (entryName platform) (chosenRows rows backupId),
        entryName platform other = entryName platform row :=
      ⟨row, (mem_sortedBy _ _ _).mpr present, rfl⟩
    have held : ((sortedBy (entryName platform) (chosenRows rows backupId)).foldl (walkRow platform) .empty).get?
        (entryName platform row) = _ := get?_walkRows _ _
    rw [if_pos there, filter_sortedBy] at held
    exact ⟨(entryName platform row, _), Dict.get?_eq_some_iff.mp held, rfl⟩

theorem broken_eq_zero_iff :
    (verifyRowChain platform rows backupId).broken = 0 ↔
      ∀ state ∈ (verifyRowChain platform rows backupId).entries, state.brokenAt = none := by
  rw [verifyRowChain]
  dsimp only
  rw [List.length_eq_zero_iff, List.filter_eq_nil_iff]
  simp

/-- The columns the walk reads hold texts. -/
structure TextRows (rows : List FileRow) : Prop where
  entries : ∀ row ∈ rows, ∃ word, row.2 .backupId = .text word
  hashes : ∀ row ∈ rows, TextHash row

theorem TextRows.filter (texts : TextRows rows) (keep : FileRow → Bool) : TextRows (rows.filter keep) :=
  ⟨fun row member => texts.entries row (List.mem_filter.mp member).1,
    fun row member => texts.hashes row (List.mem_filter.mp member).1⟩

section Report

variable {rows : List FileRow} {backupId : String} (texts : TextRows rows)

include texts

theorem chosenRows_eq_filter (platform : Platform) (given : backupId ≠ "") :
    chosenRows rows backupId = rows.filter fun row => entryName platform row = backupId := by
  rw [chosenRows, if_neg given]
  apply List.filter_congr
  intro row member
  obtain ⟨word, text⟩ := texts.entries row member
  rw [entryName, text]
  by_cases empty : word = ""
  · simp [Value.equal, truthy, empty, given.symm]
  · simp [Value.equal, truthy, Platform.str, empty]

theorem entryName_of_chosen (chosen : row ∈ chosenRows rows backupId) :
    row ∈ rows ∧ (backupId = "" ∨ backupId = entryName platform row) := by
  by_cases given : backupId = ""
  · rw [chosenRows, if_pos given] at chosen
    exact ⟨chosen, Or.inl given⟩
  · rw [chosenRows_eq_filter texts platform given, List.mem_filter] at chosen
    exact ⟨chosen.1, Or.inr (of_decide_eq_true chosen.2).symm⟩

theorem state_mem_entries (member : row ∈ rows) (read : backupId = "" ∨ backupId = entryName platform row) :
    (walkEntry platform (entryName platform row)
      (rows.filter fun other => entryName platform other = entryName platform row)).1 ∈
        (verifyRowChain platform rows backupId).entries := by
  rw [mem_entries_iff]
  refine ⟨row, ?_, by rw [filter_chosenRows texts.entries read]⟩
  by_cases given : backupId = ""
  · rwa [chosenRows, if_pos given]
  · rw [chosenRows_eq_filter texts platform given, List.mem_filter]
    exact ⟨member, by simp [read.resolve_left given]⟩

/-- Every state of the report is its own entry's walk. -/
theorem state_of_mem_entries {state : EntryState} (member : state ∈ (verifyRowChain platform rows backupId).entries) :
    state = (walkEntry platform state.backupId (rows.filter fun row => entryName platform row = state.backupId)).1 := by
  obtain ⟨row, chosen, rfl⟩ := mem_entries_iff.mp member
  rw [walkEntry_backupId, filter_chosenRows texts.entries (entryName_of_chosen texts chosen).2]

/-- Nothing is reported exactly where every entry's rows verify. -/
theorem broken_eq_zero_iff_clean :
    (verifyRowChain platform rows "").broken = 0 ↔
      ∀ entry, Clean platform (rows.filter fun row => entryName platform row = entry) := by
  rw [broken_eq_zero_iff]
  constructor
  · intro none entry
    by_cases there : ∃ row ∈ rows, entryName platform row = entry
    · obtain ⟨row, member, rfl⟩ := there
      have unbroken := none _ (state_mem_entries texts member (Or.inl rfl))
      exact (walkEntry_spec _ (texts.filter _).hashes).1.mp unbroken
    · have empty : (rows.filter fun row => entryName platform row = entry) = [] := by
        rw [List.filter_eq_nil_iff]
        intro row member own
        exact there ⟨row, member, of_decide_eq_true own⟩
      rw [empty]
      exact clean_nil
  · intro clean state member
    rw [state_of_mem_entries texts member]
    exact (walkEntry_spec _ (texts.filter _).hashes).1.mpr (clean _)

theorem broken_eq_zero_of_clean
    (clean : ∀ entry, Clean platform (rows.filter fun row => entryName platform row = entry)) :
    (verifyRowChain platform rows backupId).broken = 0 := by
  rw [broken_eq_zero_iff]
  intro state member
  rw [state_of_mem_entries texts member]
  exact (walkEntry_spec _ (texts.filter _).hashes).1.mpr (clean _)

end Report

/-! ## What a hash says of its row -/

theorem coveredFields_eq_iff {row other : BackupFileColumn → Value} :
    coveredFields platform row = coveredFields platform other ↔
      ∀ field ∈ chainFields, fieldText platform row field.1 = fieldText platform other field.1 := by
  constructor
  · intro same field member
    have entries := Json.object.inj same
    have held : (field.2, fieldText platform row field.1) ∈
        sortedBy Prod.fst (chainFields.map fun field => (field.2, fieldText platform other field.1)) := by
      rw [← entries, mem_sortedBy]
      exact List.mem_map_of_mem member
    rw [mem_sortedBy, List.mem_map] at held
    obtain ⟨twin, present, equal⟩ := held
    obtain ⟨name, text⟩ := Prod.mk.inj equal
    have names : (chainFields.map Prod.snd).Nodup := by decide
    obtain rfl := List.inj_on_of_nodup_map names present member name
    exact text.symm
  · intro same
    rw [coveredFields, coveredFields]
    refine congrArg (fun fields => Json.object (sortedBy Prod.fst fields)) (List.map_congr_left ?_)
    intro field member
    rw [same field member]

variable (platform) in
def DigestInjective : Prop :=
  ∀ (row other : BackupFileColumn → Value) (previous before : String),
    platform.sha256 (hashedText platform row previous) = platform.sha256 (hashedText platform other before) →
      hashedText platform row previous = hashedText platform other before

theorem rowChain_injective (injective : DigestInjective platform) : (rowChain platform).Injective := by
  intro row other previous before same
  have texts := Json.dumps_injective _ (injective row.2 other.2 previous before same)
  obtain ⟨first, rest⟩ := List.cons.inj (Json.array.inj texts)
  exact ⟨(List.cons.inj rest).1, Json.string.inj first⟩

/-! ## The rows of the table -/

theorem entryName_of_text {word : String} (text : row.2 .backupId = .text word) : entryName platform row = word := by
  rw [entryName, text]
  by_cases empty : word = ""
  · simp [truthy, empty]
  · simp [truthy, Platform.str, empty]

section Table

variable {files : Rows platform.storage backupFiles} {id : Int} {row : BackupFileColumn → Value}

theorem text_backupId (found : files.get? id = some row) : ∃ word, row .backupId = .text word := by
  have textual : row .backupId = .null ∨ ∃ word, row .backupId = .text word :=
    Rows.textual_of_get? found rfl fun _ => Or.inr ⟨"", rfl⟩
  refine textual.resolve_left ?_
  exact (Rows.valid_of_get? found).required .backupId (by simp [backupFiles, BackupFileColumn.required])

theorem text_rowHash (found : files.get? id = some row) : row .rowHash = .null ∨ ∃ word, row .rowHash = .text word :=
  Rows.textual_of_get? found rfl fun _ => Or.inl rfl

theorem textRows (files : Rows platform.storage backupFiles) : TextRows files.rows :=
  ⟨fun _ member => text_backupId (Rows.get?_eq_some_iff.mpr member),
    fun _ member => text_rowHash (Rows.get?_eq_some_iff.mpr member)⟩

end Table

variable {other : FileRow}

/-- Two rows of one text in the entry's column are of one entry. -/
theorem entryName_eq_of_fieldText (text : ∃ word, row.2 .backupId = .text word)
    (text' : ∃ word, other.2 .backupId = .text word)
    (same : fieldText platform row.2 .backupId = fieldText platform other.2 .backupId) :
    entryName platform row = entryName platform other := by
  obtain ⟨word, text⟩ := text
  obtain ⟨word', text'⟩ := text'
  rw [entryName_of_text text, entryName_of_text text']
  rw [fieldText, fieldText, text, text'] at same
  exact Json.string.inj same

theorem equal_backupId_iff (text : ∃ word, row.2 .backupId = .text word)
    (text' : ∃ word, other.2 .backupId = .text word) :
    (row.2 .backupId).equal (other.2 .backupId) = some true ↔ entryName platform row = entryName platform other := by
  obtain ⟨word, text⟩ := text
  obtain ⟨word', text'⟩ := text'
  rw [entryName_of_text text, entryName_of_text text', text, text', Value.equal]
  simp

end Walk

end DbaBrain.Db.BackupCatalog
