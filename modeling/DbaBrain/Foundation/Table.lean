import Mathlib

/-!
# Tables with a primary key and a partial unique index

A statement computes the rows it would leave.  They replace the table's rows
only when the constraints still hold, and the statement is refused otherwise.
The index covers the rows its function maps to a value.
-/

namespace DbaBrain.Foundation

/-- A number above all of the given ones. -/
def above (used : List Nat) (last : Nat) : Nat := used.foldr max last + 1

theorem lt_above {used : List Nat} {number : Nat} (last : Nat) (member : number ∈ used) :
    number < above used last := by
  induction used with
  | nil => cases member
  | cons head rest ih =>
    rcases List.mem_cons.mp member with rfl | later
    · exact Nat.lt_succ_of_le (le_max_left _ _)
    · exact (ih later).trans_le (Nat.succ_le_succ (le_max_right _ _))

/-- Rows, no two with one key, and no two of the indexed ones with one index entry. -/
structure Table {ρ κ β : Type} (key : ρ → κ) (index : ρ → Option β) where
  rows : List ρ
  keys_nodup : (rows.map key).Nodup
  index_nodup : (rows.filterMap index).Nodup

namespace Table

variable {ρ κ β : Type} {key : ρ → κ} {index : ρ → Option β}

theorem eq_of_nodup_filterMap {rows : List ρ} {row other : ρ} {entry : β} (once : (rows.filterMap index).Nodup)
    (member : row ∈ rows) (present : other ∈ rows) (covered : index row = some entry)
    (same : index other = some entry) : row = other := by
  obtain ⟨front, back, split⟩ := List.append_of_mem member
  rw [split] at present once
  simp only [List.filterMap_append, List.filterMap_cons, covered, List.nodup_append, List.nodup_cons,
    List.mem_cons, List.mem_filterMap, not_exists, not_and] at once
  obtain ⟨_, ⟨later, _⟩, earlier⟩ := once
  rcases List.mem_append.mp present with before | after
  · exact absurd rfl (earlier entry ⟨other, before, same⟩ entry (Or.inl rfl))
  · rcases List.mem_cons.mp after with rfl | behind
    · rfl
    · exact absurd same (later other behind)

@[ext]
theorem ext {left right : Table key index} (same : left.rows = right.rows) : left = right := by
  cases left
  cases right
  simpa using same

def empty : Table key index := ⟨[], by simp, by simp⟩

variable {table : Table key index} {row other : ρ}

theorem eq_of_key_eq (member : row ∈ table.rows) (present : other ∈ table.rows) (same : key row = key other) :
    row = other :=
  List.inj_on_of_nodup_map table.keys_nodup member present same

theorem eq_of_index_eq {entry : β} (member : row ∈ table.rows) (present : other ∈ table.rows)
    (covered : index row = some entry) (same : index other = some entry) : row = other :=
  eq_of_nodup_filterMap table.index_nodup member present covered same

section Lookup

variable [DecidableEq κ]

def lookup (table : Table key index) (k : κ) : Option ρ :=
  table.rows.find? fun row => key row = k

variable {table : Table key index} {k : κ} {row : ρ}

theorem key_of_lookup (found : table.lookup k = some row) : key row = k := by
  simpa using List.find?_some found

theorem mem_of_lookup (found : table.lookup k = some row) : row ∈ table.rows :=
  List.mem_of_find?_eq_some found

theorem lookup_of_mem (member : row ∈ table.rows) : table.lookup (key row) = some row := by
  cases found : table.lookup (key row) with
  | none =>
    have missing := List.find?_eq_none.mp found row member
    simp at missing
  | some other =>
    rw [eq_of_key_eq (mem_of_lookup found) member (key_of_lookup found)]

theorem lookup_eq_some_iff : table.lookup k = some row ↔ row ∈ table.rows ∧ key row = k := by
  constructor
  · intro found
    exact ⟨mem_of_lookup found, key_of_lookup found⟩
  · rintro ⟨member, rfl⟩
    exact lookup_of_mem member

theorem lookup_eq_none_iff : table.lookup k = none ↔ ∀ row ∈ table.rows, key row ≠ k := by
  simp [lookup]

/-- The key an `AUTOINCREMENT` column gives: above every key the table holds or has held. -/
def nextKey {ρ β : Type} {key : ρ → Nat} {index : ρ → Option β} (table : Table key index) (last : Nat) : Nat :=
  above (table.rows.map key) last

theorem lookup_nextKey {key : ρ → Nat} (table : Table key index) (last : Nat) :
    table.lookup (table.nextKey last) = none := by
  rw [lookup_eq_none_iff]
  intro row member
  exact (lt_above last (List.mem_map_of_mem member)).ne

end Lookup

section Statements

variable [DecidableEq κ] [DecidableEq β]

/-- The rows as a table, when they meet the constraints. -/
def ofRows? (rows : List ρ) : Option (Table key index) :=
  if valid : (rows.map key).Nodup ∧ (rows.filterMap index).Nodup then
    some ⟨rows, valid.1, valid.2⟩
  else
    none

variable {rows : List ρ} {other : ρ}

theorem rows_of_ofRows? (accepted : ofRows? rows = some table) : table.rows = rows := by
  rw [ofRows?, Option.dite_none_right_eq_some] at accepted
  obtain ⟨_, built⟩ := accepted
  exact congrArg Table.rows (Option.some.inj built).symm

theorem ofRows?_isSome (keys : (rows.map key).Nodup) (entries : (rows.filterMap index).Nodup) :
    (ofRows? rows : Option (Table key index)).isSome = true := by
  rw [ofRows?, dif_pos ⟨keys, entries⟩]
  rfl

/-- `INSERT`. -/
def insert? (table : Table key index) (row : ρ) : Option (Table key index) :=
  ofRows? (table.rows ++ [row])

/-- `UPDATE .. SET .. WHERE ..`. -/
def update? (table : Table key index) (matching : ρ → Bool) (change : ρ → ρ) : Option (Table key index) :=
  ofRows? (table.rows.map fun row => if matching row then change row else row)

variable {table next : Table key index} {matching : ρ → Bool} {change : ρ → ρ} {k : κ} {row : ρ}

theorem rows_of_insert? (accepted : table.insert? row = some next) : next.rows = table.rows ++ [row] :=
  rows_of_ofRows? accepted

theorem rows_of_update? (accepted : table.update? matching change = some next) :
    next.rows = table.rows.map fun row => if matching row then change row else row :=
  rows_of_ofRows? accepted

theorem fresh_of_insert? (accepted : table.insert? row = some next) : table.lookup (key row) = none := by
  have once := next.keys_nodup
  rw [rows_of_insert? accepted, List.map_append, List.nodup_append] at once
  rw [lookup_eq_none_iff]
  intro other member same
  exact once.2.2 (key other) (List.mem_map_of_mem member) (key row) (by simp) same

/-- An accepted insert refuses no lookup that worked before and adds its own row. -/
theorem lookup_insert? (accepted : table.insert? row = some next) (k : κ) :
    next.lookup k = if key row = k then some row else table.lookup k := by
  rw [lookup, rows_of_insert? accepted, List.find?_append]
  by_cases own : key row = k
  · have fresh := fresh_of_insert? accepted
    rw [own] at fresh
    rw [show table.rows.find? (fun row => decide (key row = k)) = none from fresh]
    simp [own]
  · simp [own, lookup]

theorem lookup_insert?_self (accepted : table.insert? row = some next) : next.lookup (key row) = some row := by
  rw [lookup_insert? accepted, if_pos rfl]

/-- An accepted insert changes no row that was there. -/
theorem lookup_insert?_of_found (accepted : table.insert? row = some next) (found : table.lookup k = some other) :
    next.lookup k = some other := by
  have fresh := fresh_of_insert? accepted
  rw [lookup_insert? accepted, if_neg, found]
  rintro rfl
  simp [fresh] at found

/-- An insert is refused for a key in use or an index entry in use, and for nothing else. -/
theorem insert?_isSome_iff :
    (table.insert? row).isSome = true ↔ table.lookup (key row) = none ∧
      ∀ entry, index row = some entry → ∀ other ∈ table.rows, index other ≠ some entry := by
  have accepted : (table.insert? row).isSome = true ↔
      ((table.rows ++ [row]).map key).Nodup ∧ ((table.rows ++ [row]).filterMap index).Nodup := by
    simp [insert?, ofRows?, Option.isSome_dite]
  rw [accepted, lookup_eq_none_iff]
  apply and_congr
  · simp only [List.map_append, List.map_cons, List.map_nil, List.nodup_append, table.keys_nodup, true_and,
      List.nodup_singleton, List.mem_map, List.mem_singleton]
    constructor
    · intro apart other member same
      exact apart (key other) ⟨other, member, rfl⟩ (key row) rfl same
    · rintro apart _ ⟨other, member, rfl⟩ _ rfl same
      exact apart other member same
  · cases covered : index row with
    | none => simp [covered, table.index_nodup]
    | some entry =>
      simp only [List.filterMap_append, List.filterMap_cons, covered, List.filterMap_nil, List.nodup_append,
        table.index_nodup, true_and, List.nodup_singleton, List.mem_filterMap, List.mem_singleton,
        Option.some.injEq, forall_eq']
      constructor
      · intro apart other member same
        exact apart entry ⟨other, member, same⟩ entry rfl rfl
      · rintro apart _ ⟨other, member, same⟩ _ rfl rfl
        exact apart other member same

theorem insert?_eq_none_iff (fresh : table.lookup (key row) = none) :
    table.insert? row = none ↔
      ∃ entry, index row = some entry ∧ ∃ other ∈ table.rows, index other = some entry := by
  rw [← Option.not_isSome_iff_eq_none, insert?_isSome_iff]
  simp [fresh]

theorem lookup_update? (keeps : ∀ row, key (change row) = key row)
    (accepted : table.update? matching change = some next) (k : κ) :
    next.lookup k = (table.lookup k).map fun row => if matching row then change row else row := by
  rw [lookup, rows_of_update? accepted, List.find?_map, lookup]
  congr 2
  funext row
  cases matched : matching row <;> simp [matched, keeps]

theorem lookup_update?_isSome (keeps : ∀ row, key (change row) = key row)
    (accepted : table.update? matching change = some next) (k : κ) :
    (next.lookup k).isSome = (table.lookup k).isSome := by
  rw [lookup_update? keeps accepted, Option.isSome_map]

/-- An update that changes no key is accepted when the rows it leaves share no index entry. -/
theorem update?_isSome_of_apart (keeps : ∀ row, key (change row) = key row)
    (apart : ∀ row ∈ table.rows, ∀ other ∈ table.rows, key row ≠ key other → ∀ entry,
      index (if matching row then change row else row) = some entry →
        index (if matching other then change other else other) ≠ some entry) :
    (table.update? matching change).isSome = true := by
  have keys : ((table.rows.map fun row => if matching row then change row else row).map key) =
      table.rows.map key := by
    rw [List.map_map]
    apply List.map_congr_left
    intro row _
    cases matched : matching row <;> simp [matched, keeps]
  have entries : ((table.rows.map fun row => if matching row then change row else row).filterMap index).Nodup := by
    rw [List.Nodup, List.pairwise_filterMap, List.pairwise_map]
    have distinct := List.pairwise_map.mp table.keys_nodup
    refine distinct.imp_of_mem ?_
    rintro row other member present different entry covered _ again rfl
    exact apart row member other present different entry covered again
  have valid := And.intro (keys ▸ table.keys_nodup) entries
  simp only [update?, ofRows?]
  rw [dif_pos valid]
  rfl

/-- An update that changes no key and takes its rows out of the index, if it moves them, is accepted. -/
theorem update?_isSome (keeps : ∀ row, key (change row) = key row)
    (shrinks : ∀ row ∈ table.rows, matching row = true → index (change row) = none ∨
      index (change row) = index row) :
    (table.update? matching change).isSome = true := by
  have before {row : ρ} (member : row ∈ table.rows) {entry : β}
      (covered : index (if matching row then change row else row) = some entry) : index row = some entry := by
    cases matched : matching row with
    | false => simpa [matched] using covered
    | true =>
      rw [matched, if_pos rfl] at covered
      rcases shrinks row member matched with gone | same
      · simp [gone] at covered
      · exact same ▸ covered
  apply update?_isSome_of_apart keeps
  intro row member other present different entry covered again
  exact different (congrArg key (eq_of_index_eq member present (before member covered) (before present again)))

/-- An update is refused when it gives a row an index entry another row has kept. -/
theorem update?_eq_none {entry : β} (keeps : ∀ row, key (change row) = key row) (member : row ∈ table.rows)
    (matched : matching row = true) (covered : index (change row) = some entry) (present : other ∈ table.rows)
    (unmatched : matching other = false) (held : index other = some entry) : table.update? matching change = none := by
  cases accepted : table.update? matching change with
  | none => rfl
  | some next =>
    have changed : change row ∈ next.rows := by
      rw [rows_of_update? accepted]
      exact List.mem_map.mpr ⟨row, member, by simp [matched]⟩
    have kept : other ∈ next.rows := by
      rw [rows_of_update? accepted]
      exact List.mem_map.mpr ⟨other, present, by simp [unmatched]⟩
    have same := congrArg key (eq_of_index_eq changed kept covered held)
    rw [keeps] at same
    rw [eq_of_key_eq member present same, unmatched] at matched
    exact absurd matched (by simp)

end Statements

/-! ### Updates no constraint is over -/

section Amend

variable [DecidableEq κ]

theorem filterMap_sublist {α β : Type*} {smaller larger : α → Option β}
    (shrinks : ∀ x, smaller x = none ∨ smaller x = larger x) (xs : List α) :
    (xs.filterMap smaller).Sublist (xs.filterMap larger) := by
  induction xs with
  | nil => exact List.Sublist.slnil
  | cons x rest ih =>
    rw [List.filterMap_cons, List.filterMap_cons]
    rcases shrinks x with gone | same
    · rw [gone]
      cases larger x with
      | none => exact ih
      | some entry => exact ih.cons entry
    · rw [same]
      cases larger x with
      | none => exact ih
      | some entry => exact ih.cons_cons entry

structure Amendment (key : ρ → κ) (index : ρ → Option β) where
  change : ρ → ρ
  keeps : ∀ row, key (change row) = key row
  shrinks : ∀ row, index (change row) = none ∨ index (change row) = index row

/-- `UPDATE` of the row with the key. -/
def amend (table : Table key index) (k : κ) (amendment : Amendment key index) : Table key index where
  rows := table.rows.map fun row => if key row = k then amendment.change row else row
  keys_nodup := by
    rw [List.map_map]
    have same : key ∘ (fun row => if key row = k then amendment.change row else row) = key := by
      funext row
      rw [Function.comp_apply]
      split
      · exact amendment.keeps row
      · rfl
    rw [same]
    exact table.keys_nodup
  index_nodup := by
    rw [List.filterMap_map]
    refine table.index_nodup.sublist (filterMap_sublist ?_ table.rows)
    intro row
    rw [Function.comp_apply]
    split
    · exact amendment.shrinks row
    · exact Or.inr rfl

theorem lookup_amend (table : Table key index) (k : κ) (amendment : Amendment key index) (other : κ) :
    (table.amend k amendment).lookup other =
      (table.lookup other).map fun row => if other = k then amendment.change row else row := by
  rw [lookup, amend, List.find?_map, lookup]
  have keyed : (fun row => decide (key row = other)) ∘ (fun row => if key row = k then amendment.change row else row) =
      fun row => decide (key row = other) := by
    funext row
    rw [Function.comp_apply]
    split
    · rw [amendment.keeps]
    · rfl
  rw [keyed]
  cases found : table.rows.find? fun row => decide (key row = other) with
  | none => rfl
  | some row =>
    have own : key row = other := by simpa using List.find?_some found
    rw [Option.map_some, Option.map_some, own]

end Amend

section Deletes

/-- `DELETE .. WHERE ..`. -/
def delete (table : Table key index) (matching : ρ → Bool) : Table key index where
  rows := table.rows.filter fun row => !matching row
  keys_nodup := table.keys_nodup.sublist (List.filter_sublist.map key)
  index_nodup := table.index_nodup.sublist (List.filter_sublist.filterMap index)

variable {table : Table key index} {matching : ρ → Bool} {row : ρ}

theorem mem_delete : row ∈ (table.delete matching).rows ↔ row ∈ table.rows ∧ matching row = false := by
  simp [delete]

theorem lookup_delete [DecidableEq κ] (k : κ) :
    (table.delete matching).lookup k = (table.lookup k).filter fun row => !matching row := by
  cases found : table.lookup k with
  | none =>
    rw [lookup_eq_none_iff] at found
    simp only [Option.filter_none, lookup_eq_none_iff]
    intro row member
    exact found row (mem_delete.mp member).1
  | some row =>
    obtain ⟨member, rfl⟩ := lookup_eq_some_iff.mp found
    cases matched : matching row with
    | false =>
      rw [lookup_of_mem (mem_delete.mpr ⟨member, matched⟩), eq_comm, Option.filter_eq_some_iff]
      simp [matched]
    | true =>
      have dropped : (some row).filter (fun row => !matching row) = none := by simp [matched]
      rw [dropped, lookup_eq_none_iff]
      intro other present same
      obtain ⟨survives, kept⟩ := mem_delete.mp present
      rw [eq_of_key_eq survives member same, matched] at kept
      exact absurd kept (by simp)

end Deletes

end Table

end DbaBrain.Foundation
