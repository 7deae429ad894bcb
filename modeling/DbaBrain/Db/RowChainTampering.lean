import DbaBrain.Db.RowChainWriters

/-!
# Tampering with a chained row

The rows of a table that verifies, changed by hand without the later hashes
being recomputed.  Where the digest tells rows apart, the walk names the row
that is not what was written, or the first one after a row that is gone.
-/

namespace DbaBrain.Db.BackupCatalog

open DbaBrain.Foundation DbaBrain.Foundation.Sql DbaBrain.Foundation.Execution

section Tampered

variable (platform : Platform)

/-- Every call of `verify_row_chain` that reads the entry names the break at the row. -/
def NamesBreak (rows : List FileRow) (entry : String) (id : Int) : Prop :=
  ∀ backupId, backupId = "" ∨ backupId = entry →
    ∃ state ∈ (verifyRowChain platform rows backupId).entries, state.backupId = entry ∧
      ∃ found, state.brokenAt = some found ∧ found.fileId = id

/-- No call names a break outside these entries. -/
def BreaksWithin (rows : List FileRow) (entries : List String) : Prop :=
  ∀ backupId, ∀ state ∈ (verifyRowChain platform rows backupId).entries,
    state.brokenAt ≠ none → state.backupId ∈ entries

/-- A place of a hashed row of the entry holds what another of them held. -/
def Displaced (rows : List FileRow) (entry : String) (row other : FileRow) : Prop :=
  other.1 = row.1 ∧ entryName platform row = entry ∧ isHashed row = true ∧
    ∃ source ∈ rows, entryName platform source = entry ∧ isHashed source = true ∧ other.2 = source.2

/--
What is done to the rows, the rows it leaves, the entry and the row at which the
break is to be named, and the entries that may break.
-/
inductive Tampering (rows : List FileRow) : List FileRow → String → Int → List String → Prop
  /-- A covered text is changed: the row is named in the entry it then says. -/
  | edited {front back : List FileRow} {id : Int} {row edited : BackupFileColumn → Value}
      (split : rows = front ++ (id, row) :: back) (hashed : isHashed (id, row) = true)
      (text : ∃ word, edited .backupId = .text word) (kept : edited .rowHash = row .rowHash)
      (changed : ∃ field ∈ chainFields, fieldText platform edited field.1 ≠ fieldText platform row field.1) :
      Tampering rows (front ++ (id, edited) :: back) (entryName platform (id, edited)) id
        [entryName platform (id, row), entryName platform (id, edited)]
  /-- The entry itself is changed: the entry that loses the row breaks at the next one. -/
  | moved {front back rest : List FileRow} {id : Int} {row edited : BackupFileColumn → Value} {next : FileRow}
      (split : rows = front ++ (id, row) :: back) (hashed : isHashed (id, row) = true)
      (text : ∃ word, edited .backupId = .text word) (kept : edited .rowHash = row .rowHash)
      (apart : entryName platform (id, edited) ≠ entryName platform (id, row))
      (follows : (back.filter fun other => entryName platform other = entryName platform (id, row)) = next :: rest) :
      Tampering rows (front ++ (id, edited) :: back) (entryName platform (id, row)) next.1
        [entryName platform (id, row), entryName platform (id, edited)]
  /-- A hash is removed after the chain began. -/
  | unhashed {front back : List FileRow} {id : Int} {row edited : BackupFileColumn → Value}
      (split : rows = front ++ (id, row) :: back)
      (begun : ∃ first ∈ front, entryName platform first = entryName platform (id, row) ∧ isHashed first = true)
      (entry : edited .backupId = row .backupId) (removed : edited .rowHash = .null ∨ edited .rowHash = .text "") :
      Tampering rows (front ++ (id, edited) :: back) (entryName platform (id, row)) id [entryName platform (id, row)]
  /-- A hashed row is deleted that another row of its entry follows. -/
  | deleted {front back rest : List FileRow} {row next : FileRow} (split : rows = front ++ row :: back)
      (hashed : isHashed row = true)
      (follows : (back.filter fun other => entryName platform other = entryName platform row) = next :: rest) :
      Tampering rows (front ++ back) (entryName platform row) next.1 [entryName platform row]
  /-- Hashed rows of an entry change places; `row` is the first that is no longer where it was. -/
  | reordered {front back back' : List FileRow} {entry : String} {row other : FileRow}
      (split : rows = front ++ row :: back) (apart : other ≠ row)
      (places : List.Forall₂ (fun row other => other = row ∨ Displaced platform rows entry row other) rows
        (front ++ other :: back')) :
      Tampering rows (front ++ other :: back') entry row.1 [entry]

variable {platform}
variable {rows tampered front back : List FileRow}
variable {related : FileRow → FileRow → Prop} {other row : FileRow}

theorem exists_place (places : List.Forall₂ related rows tampered) (member : other ∈ tampered) :
    ∃ row ∈ rows, related row other := by
  induction places with
  | nil => cases member
  | @cons row placed rows tampered place _ ih =>
    rcases List.mem_cons.mp member with rfl | later
    · exact ⟨row, List.mem_cons_self, place⟩
    · obtain ⟨first, present, related⟩ := ih later
      exact ⟨first, List.mem_cons_of_mem _ present, related⟩

theorem place_of_split {back' : List FileRow}
    (places : List.Forall₂ related (front ++ row :: back) (front ++ other :: back')) : related row other := by
  induction front with
  | nil => exact (List.forall₂_cons.mp places).1
  | cons first front ih => exact ih (List.forall₂_cons.mp places).2

/-! ## What the walk names -/

theorem names_break (texts : TextRows rows) {entry : String}
    (split : (rows.filter fun row => entryName platform row = entry) = front ++ row :: back)
    (clean : Clean platform front) (unclean : ¬Clean platform (front ++ [row])) :
    NamesBreak platform rows entry row.1 := by
  intro backupId read
  have member : row ∈ rows.filter fun row => entryName platform row = entry := by simp [split]
  obtain ⟨there, own⟩ := List.mem_filter.mp member
  obtain rfl := of_decide_eq_true own
  have hashes : ∀ other ∈ front ++ [row], TextHash other := by
    intro other place
    have held : other ∈ rows.filter fun other => entryName platform other = entryName platform row := by
      rw [split]
      rcases List.mem_append.mp place with before | same
      · exact List.mem_append_left _ before
      · exact List.mem_append_right _ (List.mem_singleton.mp same ▸ List.mem_cons_self)
    exact texts.hashes other (List.mem_filter.mp held).1
  obtain ⟨found, broken, id⟩ := walkEntry_breaks (entryName platform row) back hashes clean unclean
  exact ⟨_, state_mem_entries texts there read, walkEntry_backupId _ _, found, by rw [split]; exact broken, id⟩

theorem breaks_within {entries : List String} (texts : TextRows tampered)
    (clean : ∀ entry, Clean platform (rows.filter fun row => entryName platform row = entry))
    (same : ∀ entry, entry ∉ entries → (tampered.filter fun row => entryName platform row = entry) =
      rows.filter fun row => entryName platform row = entry) : BreaksWithin platform tampered entries := by
  intro backupId state member broken
  by_contra outside
  refine broken ?_
  rw [state_of_mem_entries texts member]
  refine (walkEntry_spec _ (texts.filter _).hashes).1.mpr ?_
  rw [same _ outside]
  exact clean _

/-! ## Rows that do not verify -/

section Unclean

variable (injective : DigestInjective platform)

include injective

variable {front : List FileRow} {row : FileRow}

variable {other : FileRow} {rest : List FileRow} {next : FileRow}

/-- A row that stores the hash of another text verifies nowhere. -/
theorem not_clean_of_forged {previous : String} (hashed : isHashed row = true)
    (stored : (rowChain platform).stored row = rowHash platform other.2 previous)
    (changed : ∃ field ∈ chainFields, fieldText platform row.2 field.1 ≠ fieldText platform other.2 field.1) :
    ¬Clean platform (front ++ [row]) := by
  intro clean
  have digest := ((clean_concat_hashed hashed).mp clean).2
  have covered := (rowChain_injective injective row other _ _ (digest.symm.trans stored)).1
  obtain ⟨field, member, apart⟩ := changed
  exact apart (coveredFields_eq_iff.mp covered field member)

omit injective in
/-- In an entry that verifies, what follows a hashed row is hashed, over that row. -/
theorem next_hashed (clean : Clean platform (front ++ row :: next :: rest)) (hashed : isHashed row = true) :
    isHashed next = true ∧ (rowChain platform).stored next = rowHash platform next.2 ((rowChain platform).stored row) := by
  have whole : Clean platform (front ++ [row] ++ [next] ++ rest) := by simpa using clean
  have kept : (front ++ [row]).filter (fun row => isHashed row) = front.filter (fun row => isHashed row) ++ [row] :=
    filter_concat_of_pos hashed
  cases hashedNext : isHashed next with
  | false =>
    have none := ((clean_concat_unhashed hashedNext).mp whole.of_append).2
    rw [kept] at none
    simp at none
  | true =>
    have digest := ((clean_concat_hashed hashedNext).mp whole.of_append).2
    rw [kept, HashChain.head_concat] at digest
    exact ⟨rfl, digest⟩

/-- A row that is gone is missed by the row after it. -/
theorem not_clean_of_deleted (clean : Clean platform (front ++ row :: next :: rest)) (hashed : isHashed row = true) :
    ¬Clean platform (front ++ [next]) := by
  intro without
  obtain ⟨hashedNext, stored⟩ := next_hashed clean hashed
  obtain ⟨cleanFront, digest⟩ := (clean_concat_hashed hashedNext).mp without
  have heads := (rowChain_injective injective next next _ _ (digest.symm.trans stored)).2
  have whole : Clean platform (front ++ [row] ++ (next :: rest)) := by simpa using clean
  have linked := whole.of_append.linked
  have kept : (front ++ [row]).filter (fun row => isHashed row) = front.filter (fun row => isHashed row) ++ [row] :=
    filter_concat_of_pos hashed
  rw [kept] at linked
  have links := HashChain.links_eq_of_head_eq (rowChain_injective injective) cleanFront.linked linked
    (heads.trans (HashChain.head_concat _ _ _).symm)
  simpa using congrArg List.length links

omit injective in
theorem not_clean_of_unhashed {first : FileRow} (begun : first ∈ front) (hashed : isHashed first = true)
    (unhashed : isHashed row = false) : ¬Clean platform (front ++ [row]) := by
  intro clean
  have none := ((clean_concat_unhashed unhashed).mp clean).2
  have member : first ∈ front.filter fun row => isHashed row := List.mem_filter.mpr ⟨begun, hashed⟩
  rw [none] at member
  cases member

/-- Another row's hash does not stand where a row's own did. -/
theorem not_clean_of_displaced {source : FileRow} (clean : Clean platform (front ++ row :: back))
    (hashed : isHashed row = true) (member : source ∈ front ++ row :: back) (hashedSource : isHashed source = true)
    (same : other.2 = source.2) (apart : other.2 ≠ row.2) : ¬Clean platform (front ++ [other]) := by
  intro placed
  have hashedOther : isHashed other = true := by rwa [isHashed, same]
  obtain ⟨cleanFront, digest⟩ := (clean_concat_hashed hashedOther).mp placed
  have linked := clean.linked
  have split : (front ++ row :: back).filter (fun row => isHashed row) =
      front.filter (fun row => isHashed row) ++ row :: back.filter (fun row => isHashed row) := by
    rw [List.filter_append, List.filter_cons_of_pos hashed]
  have held : source ∈ (front ++ row :: back).filter fun row => isHashed row :=
    List.mem_filter.mpr ⟨member, hashedSource⟩
  obtain ⟨before, after, split'⟩ := List.append_of_mem held
  rw [split'] at linked
  have stored : (rowChain platform).stored source =
      (rowChain platform).digest ((rowChain platform).covered source)
        ((rowChain platform).head (front.filter fun row => isHashed row)) := by
    change hashText platform (source.2 .rowHash) = rowHash platform source.2 _
    rw [← same]
    exact digest
  have heads := (linked.digest_eq (rowChain_injective injective) stored).2
  have links := HashChain.links_eq_of_head_eq (rowChain_injective injective) linked.of_append cleanFront.linked heads
  have lengths : before.length = (front.filter fun row => isHashed row).length := by
    simpa using congrArg List.length links
  have rows := split'.symm.trans split
  obtain ⟨_, rest⟩ := List.append_inj rows lengths
  obtain ⟨rfl, _⟩ := List.cons.inj rest
  exact apart same

end Unclean

/-! ## Every tampering -/

section Filters

variable {front back : List FileRow} {row other : FileRow} {entry : String}

theorem filter_entry_of_pos (own : entryName platform row = entry) :
    ((front ++ row :: back).filter fun row => entryName platform row = entry) =
      (front.filter fun row => entryName platform row = entry) ++
        row :: back.filter fun row => entryName platform row = entry := by
  rw [List.filter_append, List.filter_cons_of_pos (by simpa using own)]

theorem filter_entry_of_neg (apart : entryName platform row ≠ entry) :
    ((front ++ row :: back).filter fun row => entryName platform row = entry) =
      (front.filter fun row => entryName platform row = entry) ++
        back.filter fun row => entryName platform row = entry := by
  rw [List.filter_append, List.filter_cons_of_neg (by simpa using apart)]

end Filters

theorem textRows_of_forall (texts : TextRows rows)
    (each : ∀ row ∈ tampered, row ∈ rows ∨ (∃ word, row.2 .backupId = .text word) ∧ TextHash row) : TextRows tampered :=
  ⟨fun row member => (each row member).elim (texts.entries row) And.left,
    fun row member => (each row member).elim (texts.hashes row) And.right⟩

theorem textRows_replaced {id : Int} {row edited : BackupFileColumn → Value}
    (texts : TextRows (front ++ (id, row) :: back)) (entry : ∃ word, edited .backupId = .text word)
    (hash : TextHash (id, edited)) : TextRows (front ++ (id, edited) :: back) := by
  refine textRows_of_forall texts ?_
  intro other member
  rcases List.mem_append.mp member with before | rest
  · exact Or.inl (List.mem_append_left _ before)
  · rcases List.mem_cons.mp rest with rfl | after
    · exact Or.inr ⟨entry, hash⟩
    · exact Or.inl (List.mem_append_right _ (List.mem_cons_of_mem _ after))

theorem filter_places {rows left right : List FileRow} {entry other : String} (apart : other ≠ entry)
    (places : List.Forall₂ (fun row other => other = row ∨ Displaced platform rows entry row other) left right) :
    (right.filter fun row => entryName platform row = other) = left.filter fun row => entryName platform row = other := by
  induction places with
  | nil => rfl
  | @cons row placed left right place _ ih =>
    rcases place with rfl | ⟨_, own, _, source, _, ownSource, _, same⟩
    · rw [List.filter_cons, List.filter_cons, ih]
    · have ownPlaced : entryName platform placed = entry := by rw [← ownSource, entryName, entryName, same]
      rw [List.filter_cons_of_neg (by simpa [ownPlaced] using apart.symm),
        List.filter_cons_of_neg (by simpa [own] using apart.symm), ih]

section Intact

variable {rows : List FileRow} (texts : TextRows rows)
  (clean : ∀ entry, Clean platform (rows.filter fun row => entryName platform row = entry))

include clean in
theorem stored_of_clean {front back : List FileRow} {row : FileRow} (split : rows = front ++ row :: back)
    (hashed : isHashed row = true) : ∃ previous, (rowChain platform).stored row = rowHash platform row.2 previous := by
  have own := clean (entryName platform row)
  rw [split, filter_entry_of_pos rfl] at own
  have whole : Clean platform ((front.filter fun other => entryName platform other = entryName platform row) ++ [row] ++
      back.filter fun other => entryName platform other = entryName platform row) := by simpa using own
  exact ⟨_, ((clean_concat_hashed hashed).mp whole.of_append).2⟩

variable {front back : List FileRow} {row : FileRow}

theorem filter_elsewhere {edited : FileRow} (split : rows = front ++ row :: back) (other : String)
    (outside : other ∉ [entryName platform row, entryName platform edited]) :
    ((front ++ edited :: back).filter fun row => entryName platform row = other) =
      rows.filter fun row => entryName platform row = other := by
  simp only [List.mem_cons, List.not_mem_nil, or_false, not_or] at outside
  rw [split, filter_entry_of_neg (Ne.symm outside.1), filter_entry_of_neg (Ne.symm outside.2)]

include texts

theorem textRows_kept {front back : List FileRow} {id : Int} {row edited : BackupFileColumn → Value}
    (split : rows = front ++ (id, row) :: back) (text : ∃ word, edited .backupId = .text word)
    (kept : edited .rowHash = row .rowHash) : TextRows (front ++ (id, edited) :: back) := by
  rw [split] at texts
  have hash : row .rowHash = .null ∨ ∃ word, row .rowHash = .text word := texts.hashes (id, row) (by simp)
  refine textRows_replaced texts text ?_
  rw [← kept] at hash
  exact hash

include clean

theorem unhashed_named {front back : List FileRow} {id : Int} {row edited : BackupFileColumn → Value}
    (split : rows = front ++ (id, row) :: back)
    (begun : ∃ first ∈ front, entryName platform first = entryName platform (id, row) ∧ isHashed first = true)
    (entry : edited .backupId = row .backupId) (removed : edited .rowHash = .null ∨ edited .rowHash = .text "") :
    NamesBreak platform (front ++ (id, edited) :: back) (entryName platform (id, row)) id ∧
      BreaksWithin platform (front ++ (id, edited) :: back) [entryName platform (id, row)] := by
  have same : entryName platform (id, edited) = entryName platform (id, row) := by simp only [entryName, entry]
  have unhashed : isHashed (id, edited) = false := by
    rcases removed with null | empty
    · simp [isHashed, null, truthy]
    · simp [isHashed, empty, truthy]
  have textsAfter : TextRows (front ++ (id, edited) :: back) := by
    rw [split] at texts
    have text : ∃ word, row .backupId = .text word := texts.entries (id, row) (by simp)
    refine textRows_replaced texts ?_ (removed.imp_right fun empty => ⟨"", empty⟩)
    rwa [entry]
  constructor
  · have own := clean (entryName platform (id, row))
    rw [split, List.filter_append] at own
    obtain ⟨first, member, ofEntry, hashed⟩ := begun
    refine names_break textsAfter (filter_entry_of_pos same) own.of_append ?_
    exact not_clean_of_unhashed (List.mem_filter.mpr ⟨member, decide_eq_true ofEntry⟩) hashed unhashed
  · refine breaks_within textsAfter clean ?_
    intro other outside
    refine filter_elsewhere split other ?_
    rw [same]
    simpa using outside

variable (injective : DigestInjective platform)

include injective

theorem edited_named {front back : List FileRow} {id : Int} {row edited : BackupFileColumn → Value}
    (split : rows = front ++ (id, row) :: back) (hashed : isHashed (id, row) = true)
    (text : ∃ word, edited .backupId = .text word) (kept : edited .rowHash = row .rowHash)
    (changed : ∃ field ∈ chainFields, fieldText platform edited field.1 ≠ fieldText platform row field.1) :
    NamesBreak platform (front ++ (id, edited) :: back) (entryName platform (id, edited)) id := by
  obtain ⟨previous, stored⟩ := stored_of_clean clean split hashed
  have own := clean (entryName platform (id, edited))
  rw [split, List.filter_append] at own
  refine names_break (textRows_kept texts split text kept) (filter_entry_of_pos rfl) own.of_append ?_
  have still : isHashed (id, edited) = true := (congrArg truthy kept).trans hashed
  exact not_clean_of_forged injective still ((congrArg (hashText platform) kept).trans stored) changed

theorem moved_named {front back rest : List FileRow} {id : Int} {row edited : BackupFileColumn → Value} {next : FileRow}
    (split : rows = front ++ (id, row) :: back) (hashed : isHashed (id, row) = true)
    (text : ∃ word, edited .backupId = .text word) (kept : edited .rowHash = row .rowHash)
    (apart : entryName platform (id, edited) ≠ entryName platform (id, row))
    (follows : (back.filter fun other => entryName platform other = entryName platform (id, row)) = next :: rest) :
    NamesBreak platform (front ++ (id, edited) :: back) (entryName platform (id, row)) next.1 := by
  have own := clean (entryName platform (id, row))
  rw [split, filter_entry_of_pos rfl, follows] at own
  refine names_break (textRows_kept texts split text kept) ((filter_entry_of_neg apart).trans (by rw [follows]))
    own.of_append ?_
  exact not_clean_of_deleted injective own hashed

theorem deleted_named {rest : List FileRow} {next : FileRow} (split : rows = front ++ row :: back)
    (hashed : isHashed row = true)
    (follows : (back.filter fun other => entryName platform other = entryName platform row) = next :: rest) :
    NamesBreak platform (front ++ back) (entryName platform row) next.1 ∧
      BreaksWithin platform (front ++ back) [entryName platform row] := by
  have textsAfter : TextRows (front ++ back) := by
    refine textRows_of_forall texts ?_
    intro other member
    rw [split]
    rcases List.mem_append.mp member with before | after
    · exact Or.inl (List.mem_append_left _ before)
    · exact Or.inl (List.mem_append_right _ (List.mem_cons_of_mem _ after))
  constructor
  · have own := clean (entryName platform row)
    rw [split, filter_entry_of_pos rfl, follows] at own
    refine names_break textsAfter (by rw [List.filter_append, follows]) own.of_append ?_
    exact not_clean_of_deleted injective own hashed
  · refine breaks_within textsAfter clean ?_
    intro other outside
    rw [List.mem_singleton] at outside
    rw [split, filter_entry_of_neg (Ne.symm outside), List.filter_append]

theorem reordered_named {back' : List FileRow} {entry : String} {other : FileRow} (split : rows = front ++ row :: back)
    (apart : other ≠ row)
    (places : List.Forall₂ (fun row other => other = row ∨ Displaced platform rows entry row other) rows
      (front ++ other :: back')) :
    NamesBreak platform (front ++ other :: back') entry row.1 ∧
      BreaksWithin platform (front ++ other :: back') [entry] := by
  have textsAfter : TextRows (front ++ other :: back') := by
    refine textRows_of_forall texts ?_
    intro placed member
    obtain ⟨first, present, place⟩ := exists_place places member
    rcases place with rfl | ⟨_, _, _, source, present, _, _, same⟩
    · exact Or.inl present
    · refine Or.inr ⟨?_, ?_⟩
      · rw [same]
        exact texts.entries source present
      · rw [TextHash, same]
        exact texts.hashes source present
  constructor
  · rw [split] at places
    obtain ⟨sameId, own, hashed, source, present, ownSource, hashedSource, same⟩ :=
      (place_of_split places).resolve_left apart
    have whole := clean entry
    rw [split, filter_entry_of_pos own] at whole
    have ownOther : entryName platform other = entry := by rw [← ownSource, entryName, entryName, same]
    have held : source ∈ (front.filter fun row => entryName platform row = entry) ++
        row :: back.filter fun row => entryName platform row = entry := by
      rw [← filter_entry_of_pos own]
      exact List.mem_filter.mpr ⟨present, decide_eq_true ownSource⟩
    rw [← sameId]
    refine names_break textsAfter (filter_entry_of_pos ownOther) whole.of_append ?_
    exact not_clean_of_displaced injective whole hashed held hashedSource same fun equal =>
      apart (Prod.ext sameId equal)
  · refine breaks_within textsAfter clean ?_
    intro outside away
    rw [List.mem_singleton] at away
    exact filter_places away places

end Intact

/--
Of a table that verifies, tampered with in any of these ways: every call of
`verify_row_chain` that reads the entry names the break at the row, and no call
names one outside the entries the row is of before and after.
-/
theorem tampering_named (platform : Platform) (injective : DigestInjective platform)
    (files : Rows platform.storage backupFiles) (intact : (verifyRowChain platform files.rows "").broken = 0)
    (tampered : List FileRow) (entry : String) (id : Int) (entries : List String)
    (tampering : Tampering platform files.rows tampered entry id entries) :
    NamesBreak platform tampered entry id ∧ BreaksWithin platform tampered entries := by
  have texts := textRows files
  have clean := (broken_eq_zero_iff_clean texts).mp intact
  cases tampering with
  | edited split hashed text kept changed =>
      exact ⟨edited_named texts clean injective split hashed text kept changed,
        breaks_within (textRows_kept texts split text kept) clean (filter_elsewhere split)⟩
  | moved split hashed text kept apart follows =>
      exact ⟨moved_named texts clean injective split hashed text kept apart follows,
        breaks_within (textRows_kept texts split text kept) clean (filter_elsewhere split)⟩
  | unhashed split begun entry removed => exact unhashed_named texts clean split begun entry removed
  | deleted split hashed follows => exact deleted_named texts clean injective split hashed follows
  | reordered split apart places => exact reordered_named texts clean injective split apart places

end Tampered

/-! ### A row moved to another entry -/

def recorded : List Statement := [.insert 0 nightly.stored writtenFile, .hash 0, .commit 0]

def recordedTable : Rows textDigest.storage backupFiles :=
  ((exec Shared.step (Shared.start textDigest) recorded).map Shared.files).getD .empty

def recordedRow : BackupFileColumn → Value := (recordedTable.get? 1).getD fun _ => .null

def movedRow : BackupFileColumn → Value := fun column => if column = .backupId then .text "F" else recordedRow column

theorem recordedRow_entry : recordedRow .backupId = .text "E" := by decide +kernel

theorem recordedTable_intact :
    recordedTable.rows = [(1, recordedRow)] ∧ isHashed (1, recordedRow) = true ∧
      (verifyRowChain textDigest recordedTable.rows "").broken = 0 := by
  have there : ((exec Shared.step (Shared.start textDigest) recorded).map fun s =>
      s.files.rows.map fun row => (row.1, s.writer row.1)) = some [(1, none)] := by decide +kernel
  have inOrder : Every Shared.step (fun before statement _ => before.InOrder statement) (Shared.start textDigest)
      recorded := by decide +kernel
  obtain ⟨s, ran, ids⟩ := Option.map_eq_some_iff.mp there
  have table : recordedTable = s.files := by rw [recordedTable, ran, Option.map_some, Option.getD_some]
  obtain ⟨⟨id, row⟩, rows, own⟩ := List.map_eq_singleton_iff.mp ids
  obtain ⟨rfl, open'⟩ := Prod.mk.inj own
  have found : s.files.get? 1 = some row := Rows.get?_eq_some_iff.mpr (by rw [rows]; exact List.mem_cons_self)
  have same : recordedRow = row := by rw [recordedRow, table, found, Option.getD_some]
  have committed : s.committed = s.files.rows := by
    rw [Shared.committed, rows]
    simpa using open'
  have chained := chained_of_run ran inOrder
  refine ⟨by rw [table, rows, same], ?_, ?_⟩
  · refine committed_isHashed chained ?_
    rw [committed, rows, same]
    exact List.mem_cons_self
  · rw [table, ← committed]
    exact unbroken_of_chained chained ""

theorem movedRow_entry : entryName textDigest (1, movedRow) = "F" := entryName_of_text rfl

theorem recordedRow_entryName : entryName textDigest (1, recordedRow) = "E" := entryName_of_text recordedRow_entry

theorem movedRow_changed :
    ∃ field ∈ chainFields, fieldText textDigest movedRow field.1 ≠ fieldText textDigest recordedRow field.1 := by
  refine ⟨(.backupId, "backup_id"), by simp [chainFields], ?_⟩
  intro same
  have moved : fieldText textDigest movedRow .backupId = .string "F" := rfl
  have recorded : fieldText textDigest recordedRow .backupId = .string "E" := by
    rw [fieldText, recordedRow_entry]
    rfl
  rw [moved, recorded] at same
  exact absurd (Json.string.inj same) (by decide)

theorem tampering_named_moved :
    NamesBreak textDigest [(1, movedRow)] "F" 1 ∧ BreaksWithin textDigest [(1, movedRow)] ["E", "F"] := by
  obtain ⟨rows, hashed, intact⟩ := recordedTable_intact
  have tampering : Tampering textDigest recordedTable.rows ([] ++ (1, movedRow) :: [])
      (entryName textDigest (1, movedRow)) 1 [entryName textDigest (1, recordedRow), entryName textDigest (1, movedRow)] :=
    .edited rows hashed ⟨"F", rfl⟩ rfl movedRow_changed
  rw [movedRow_entry, recordedRow_entryName] at tampering
  exact tampering_named textDigest textDigest_injective recordedTable intact _ _ _ _ tampering

/-- The entry the row was of is not even in the report. -/
theorem moved_row_breaks_another_entry :
    ¬∀ (files : Rows textDigest.storage backupFiles) (front back : List FileRow) (id : Int)
      (row edited : BackupFileColumn → Value), (verifyRowChain textDigest files.rows "").broken = 0 →
        files.rows = front ++ (id, row) :: back → isHashed (id, row) = true → edited .rowHash = row .rowHash →
        (∃ word, edited .backupId = .text word) →
        (∃ field ∈ chainFields, fieldText textDigest edited field.1 ≠ fieldText textDigest row field.1) →
          (∃ state ∈ (verifyRowChain textDigest (front ++ (id, edited) :: back) "").entries,
            state.backupId = entryName textDigest (id, row) ∧ state.brokenAt ≠ none) ∧
          ∀ state ∈ (verifyRowChain textDigest (front ++ (id, edited) :: back) "").entries,
            state.brokenAt ≠ none → state.backupId = entryName textDigest (id, row) := by
  intro always
  obtain ⟨rows, hashed, intact⟩ := recordedTable_intact
  obtain ⟨⟨state, member, own, _⟩, _⟩ := always recordedTable [] [] 1 recordedRow movedRow intact rows hashed rfl
    ⟨"F", rfl⟩ movedRow_changed
  obtain ⟨row, chosen, rfl⟩ := mem_entries_iff.mp member
  rw [chosenRows, if_pos rfl, List.nil_append, List.mem_singleton] at chosen
  rw [walkEntry_backupId, chosen, movedRow_entry, recordedRow_entryName] at own
  exact absurd own (by decide)

end DbaBrain.Db.BackupCatalog
