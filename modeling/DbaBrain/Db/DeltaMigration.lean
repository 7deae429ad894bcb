import Mathlib

/-!
# What a delta migration leaves

A table that is small, or that has neither a key nor a dated column, is copied
whole.  A keyed table loses what lies below the source's lowest key, gains what
lies above its own highest, and has its recent window deleted and copied again.
A table without a key is cut at its newest date.  A row here is what `COPY`
stores of it, and what it is compared by: its key and its timestamp.
-/

namespace DbaBrain.Db.DeltaMigration

/-- What a table's columns say of a row: its autoincrement key, its timestamp where it has one, and
which two rows its keys and `UNIQUE`s never let stand together. -/
structure Shape (α τ : Type) where
  key : Option (α → Int)
  stamp : Option (α → Option τ)
  conflict : α → α → Bool
  conflict_symm : ∀ first second, conflict first second = conflict second first
  conflict_of_key : ∀ column, key = some column → ∀ first second, column first = column second →
    conflict first second = true

/-- `reload_under`, and the cutoff of `resync_days` where those are positive. -/
structure Options (τ : Type) where
  reloadUnder : Int
  cutoff : Option τ

section Migration

variable {α τ : Type} [LinearOrder τ] (shape : Shape α τ)

def Legal (rows : List α) : Prop := rows.Pairwise fun first second => shape.conflict first second = false

instance (rows : List α) : Decidable (Legal shape rows) := inferInstanceAs (Decidable (List.Pairwise _ _))

/-- `_copy_chunk`, in batches of any size: a row that conflicts ends the migration. -/
def copyRows (rows target : List α) : Option (List α) :=
  if Legal shape (target ++ rows) then some (target ++ rows) else none

def migrateTable (rows : List α) : Option (List α) := copyRows shape rows []

/-- `stamp >= cutoff`, which a NULL is not. -/
def atOrAfter (stamp : α → Option τ) (cutoff : τ) (row : α) : Bool :=
  match stamp row with
  | none => false
  | some time => cutoff ≤ time

/-- `stamp < cutoff`, which a NULL is not. -/
def beforeTime (stamp : α → Option τ) (cutoff : τ) (row : α) : Bool :=
  match stamp row with
  | none => false
  | some time => time < cutoff

def maxKey (key : α → Int) (target : List α) : Int := ((target.map key).max?).getD 0

/-- Step 1: what retention removed from the source. -/
def pruneByKey (key : α → Int) (rows target : List α) : List α :=
  match (rows.map key).min? with
  | none => target
  | some lowest => target.filter fun row => lowest ≤ key row

/-- Step 3: the recent window, up to the key the target had. -/
def resyncWindow (options : Options τ) (key : α → Int) (highest : Int) (rows target : List α) :
    Option (List α) :=
  match options.cutoff, shape.stamp with
  | some cutoff, some stamp =>
      let inside (row : α) : Bool := atOrAfter stamp cutoff row && key row ≤ highest
      copyRows shape (rows.filter inside) (target.filter fun row => !inside row)
  | _, _ => some target

def migrateByKey (options : Options τ) (key : α → Int) (target rows : List α) : Option (List α) :=
  let highest := maxKey key target
  (copyRows shape (rows.filter fun row => highest < key row) (pruneByKey key rows target)).bind
    fun appended => resyncWindow shape options key highest rows appended

def pruneByTimestamp (stamp : α → Option τ) (rows target : List α) : List α :=
  match (rows.filterMap stamp).min? with
  | none => target
  | some oldest => target.filter fun row => !beforeTime stamp oldest row

/-- `_migrate_table_delta_by_timestamp`. -/
def migrateByTimestamp (stamp : α → Option τ) (target rows : List α) : Option (List α) :=
  match (target.filterMap stamp).max? with
  | none => migrateTable shape rows
  | some boundary =>
      copyRows shape (rows.filter (atOrAfter stamp boundary))
        ((pruneByTimestamp stamp rows target).filter fun row => !atOrAfter stamp boundary row)

def migrateTableDelta (options : Options τ) (target rows : List α) : Option (List α) :=
  match shape.key, shape.stamp with
  | some key, _ =>
      if (rows.length : Int) ≤ options.reloadUnder then migrateTable shape rows
      else migrateByKey shape options key target rows
  | none, some stamp =>
      if (rows.length : Int) ≤ options.reloadUnder then migrateTable shape rows
      else migrateByTimestamp shape stamp target rows
  | none, none => migrateTable shape rows

end Migration

/-! ## The source between two migrations -/

section History

variable {α τ : Type} [LinearOrder τ]

/-- A row inside the recent window. -/
def Recent (shape : Shape α τ) (options : Options τ) (row : α) : Prop :=
  ∃ stamp cutoff, shape.stamp = some stamp ∧ options.cutoff = some cutoff ∧ atOrAfter stamp cutoff row = true

/-- A source table: autoincrement keys go up from 1, and no key is above the highest ever given. -/
structure Source (shape : Shape α τ) where
  rows : List α
  top : Int
  legal : Legal shape rows
  ordered : ∀ key, shape.key = some key → rows.Pairwise fun first second => key first < key second
  within : ∀ key, shape.key = some key → ∀ row ∈ rows, 0 < key row ∧ key row ≤ top

/-- One change of the source: a row appended, a row inside the window rewritten under its key, or an old prefix gone. -/
inductive Change (shape : Shape α τ) (options : Options τ) (before after : Source shape) : Prop
  | appended (row : α) (is : after.rows = before.rows ++ [row])
      (fresh : ∀ key, shape.key = some key → before.top < key row) (grown : before.top ≤ after.top)
  | updated (front back : List α) (old new : α) (was : before.rows = front ++ old :: back)
      (is : after.rows = front ++ new :: back) (inside : Recent shape options old)
      (same : ∀ key, shape.key = some key → key new = key old) (grown : before.top ≤ after.top)
  | pruned (removed : List α) (was : before.rows = removed ++ after.rows) (grown : before.top ≤ after.top)

abbrev History (shape : Shape α τ) (options : Options τ) : Source shape → Source shape → Prop :=
  Relation.ReflTransGen (Change shape options)

variable {shape : Shape α τ} {options : Options τ} {before after : Source shape} {key : α → Int}

/-- What a keyed source keeps of an earlier state of it. -/
structure Follows (shape : Shape α τ) (options : Options τ) (key : α → Int) (before after : Source shape) : Prop where
  grown : before.top ≤ after.top
  old : ∀ row ∈ after.rows, key row ≤ before.top →
    row ∈ before.rows ∨ ∃ first ∈ before.rows, key first = key row ∧ Recent shape options first
  kept : ∀ row ∈ before.rows, ¬Recent shape options row → row ∈ after.rows ∨ ∀ other ∈ after.rows, key row < key other

theorem follows_refl (source : Source shape) : Follows shape options key source source :=
  ⟨le_refl _, fun _ member _ => .inl member, fun _ member _ => .inl member⟩

/-- One change keeps it. -/
theorem Follows.change {middle : Source shape} (keyed : shape.key = some key)
    (follows : Follows shape options key before middle) (change : Change shape options middle after) :
    Follows shape options key before after := by
  obtain ⟨grown, old, kept⟩ := follows
  cases change with
  | appended row is fresh higher =>
    have beyond : middle.top < key row := fresh key keyed
    refine ⟨grown.trans higher, ?_, ?_⟩
    · intro other member low
      rw [is] at member
      rcases List.mem_append.mp member with earlier | last
      · exact old other earlier low
      · rw [List.mem_singleton.mp last] at low
        omega
    · intro other member outside
      rw [is]
      rcases kept other member outside with there | below
      · exact .inl (List.mem_append_left _ there)
      · right
        intro third among
        rcases List.mem_append.mp among with earlier | last
        · exact below third earlier
        · rw [List.mem_singleton.mp last]
          have bound := (before.within key keyed other member).2
          omega
  | updated front back first new was is inside same higher =>
    have same_key := same key keyed
    have present : first ∈ middle.rows := by
      rw [was]
      simp
    refine ⟨grown.trans higher, ?_, ?_⟩
    · intro other member low
      rw [is] at member
      rcases List.mem_append.mp member with earlier | later
      · exact old other (by rw [was]; exact List.mem_append_left _ earlier) low
      · rcases List.mem_cons.mp later with rfl | rest
        · rw [same_key] at low
          rcases old first present low with unchanged | ⟨origin, there, its_key, recent⟩
          · exact .inr ⟨first, unchanged, same_key.symm, inside⟩
          · exact .inr ⟨origin, there, its_key.trans same_key.symm, recent⟩
        · exact old other (by rw [was]; exact List.mem_append_right _ (List.mem_cons_of_mem _ rest)) low
    · intro other member outside
      have differ : other ≠ first := by
        rintro rfl
        exact outside inside
      rw [is]
      rcases kept other member outside with there | below
      · left
        rw [was] at there
        simp only [List.mem_append, List.mem_cons] at there ⊢
        rcases there with earlier | same | later
        · exact .inl earlier
        · exact absurd same differ
        · exact .inr (.inr later)
      · right
        intro third among
        rcases List.mem_append.mp among with earlier | later
        · exact below third (by rw [was]; exact List.mem_append_left _ earlier)
        · rcases List.mem_cons.mp later with rfl | rest
          · rw [same_key]
            exact below first present
          · exact below third (by rw [was]; exact List.mem_append_right _ (List.mem_cons_of_mem _ rest))
  | pruned removed was higher =>
    have order := middle.ordered key keyed
    rw [was] at order
    refine ⟨grown.trans higher, ?_, ?_⟩
    · intro other member low
      exact old other (by rw [was]; exact List.mem_append_right _ member) low
    · intro other member outside
      rcases kept other member outside with there | below
      · rw [was] at there
        rcases List.mem_append.mp there with gone | stays
        · exact .inr fun third among => (List.pairwise_append.mp order).2.2 other gone third among
        · exact .inl stays
      · exact .inr fun third among => below third (by rw [was]; exact List.mem_append_right _ among)

/-- And so does any run of changes. -/
theorem follows_of_history (keyed : shape.key = some key) (history : History shape options before after) :
    Follows shape options key before after := by
  induction history with
  | refl => exact follows_refl before
  | tail _ change ih => exact ih.change keyed change

end History

/-! ## When the target ends as the source -/

section Ends

variable {α τ : Type} [LinearOrder τ]

/-- The migration ends, and the target holds the source's rows, each as often as the source does. -/
def EndsWhole (shape : Shape α τ) (options : Options τ) (target rows : List α) : Prop :=
  ∃ result, migrateTableDelta shape options target rows = some result ∧ result.Perm rows

/-- No appended row meets an old version it conflicts with, and no row was moved out of the window. -/
structure KeyedHolds (shape : Shape α τ) (options : Options τ) (key : α → Int) (before after : List α) : Prop where
  emptied : after = [] → ∀ row ∈ before, Recent shape options row
  appended : Legal shape (pruneByKey key after before ++ after.filter fun row => maxKey key before < key row)
  inside : ∀ row ∈ after, ∀ first ∈ before, key first = key row → Recent shape options first → Recent shape options row

/-- Below the newest date the target has, the source is what it was but for what is older than its oldest date. -/
def DatedHolds (stamp : α → Option τ) (before after : List α) : Prop :=
  ∀ boundary, (before.filterMap stamp).max? = some boundary →
    ((pruneByTimestamp stamp after before).filter fun row => !atOrAfter stamp boundary row).Perm
      (after.filter fun row => !atOrAfter stamp boundary row)

def DeltaHolds (shape : Shape α τ) (options : Options τ) (before after : List α) : Prop :=
  (after.length : Int) ≤ options.reloadUnder ∨
    match shape.key, shape.stamp with
    | some key, _ => KeyedHolds shape options key before after
    | none, some stamp => DatedHolds stamp before after
    | none, none => True

variable {shape : Shape α τ} {options : Options τ} {key : α → Int} {stamp : α → Option τ} {before after target : List α}

omit [LinearOrder τ] in
theorem legal_perm {first second : List α} (perm : first.Perm second) : Legal shape first ↔ Legal shape second := by
  refine perm.pairwise_iff ?_
  intro x y apart
  rw [shape.conflict_symm]
  exact apart

theorem max?_perm {κ : Type} [LinearOrder κ] {first second : List κ} (perm : first.Perm second) :
    first.max? = second.max? := by
  cases found : second.max? with
  | none =>
    rw [List.max?_eq_none_iff] at found ⊢
    rw [found] at perm
    exact perm.eq_nil
  | some largest =>
    rw [List.max?_eq_some_iff] at found ⊢
    exact ⟨perm.mem_iff.mpr found.1, fun x member => found.2 x (perm.mem_iff.mp member)⟩

omit [LinearOrder τ] in
/-- A whole copy of a legal source is the source. -/
theorem migrateTable_eq (legal : Legal shape after) : migrateTable shape after = some after :=
  if_pos legal

theorem endsWhole_of_reload (legal : Legal shape after)
    (reloads : migrateTableDelta shape options target after = migrateTable shape after) :
    EndsWhole shape options target after :=
  ⟨after, reloads.trans (migrateTable_eq legal), List.Perm.refl _⟩

theorem pruneByTimestamp_perm (stamp : α → Option τ) (after : List α) (perm : target.Perm before) :
    (pruneByTimestamp stamp after target).Perm (pruneByTimestamp stamp after before) := by
  unfold pruneByTimestamp
  split
  · exact perm
  · exact perm.filter _

/-- A table without a key ends as its source exactly where the two agree below the boundary. -/
theorem migrateByTimestamp_iff (legal : Legal shape after) (perm : target.Perm before) :
    (∃ result, migrateByTimestamp shape stamp target after = some result ∧ result.Perm after) ↔
      DatedHolds stamp before after := by
  unfold migrateByTimestamp DatedHolds
  rw [max?_perm (perm.filterMap stamp)]
  cases newest : (before.filterMap stamp).max? with
  | none => simpa using ⟨after, migrateTable_eq legal, List.Perm.refl after⟩
  | some boundary =>
    have split : (after.filter (fun row => !atOrAfter stamp boundary row) ++
        after.filter (atOrAfter stamp boundary)).Perm after := by
      refine (List.perm_append_comm).trans ?_
      exact List.filter_append_perm _ after
    have kept := (pruneByTimestamp_perm stamp after perm).filter
      fun row => !atOrAfter stamp boundary row
    constructor
    · rintro ⟨result, copied, whole⟩ other same
      cases same
      dsimp only at copied
      unfold copyRows at copied
      split at copied
      · cases copied
        have balanced := whole.trans split.symm
        exact kept.symm.trans ((List.perm_append_right_iff _).mp balanced)
      · cases copied
    · intro agree
      have below := kept.trans (agree boundary rfl)
      have whole := (below.append_right (after.filter (atOrAfter stamp boundary))).trans split
      refine ⟨_, if_pos ((legal_perm whole).mpr legal), whole⟩

variable {row : α}

theorem le_maxKey (member : row ∈ before) : key row ≤ maxKey key before := by
  have among : key row ∈ before.map key := List.mem_map_of_mem member
  unfold maxKey
  cases found : (before.map key).max? with
  | none =>
    rw [List.max?_eq_none_iff.mp found] at among
    cases among
  | some highest => exact (List.max?_eq_some_iff.mp found).2 _ among

/-- What is not below the source's lowest key; everything, where the source is empty. -/
theorem mem_pruneByKey : row ∈ pruneByKey key after before ↔
    row ∈ before ∧ (after = [] ∨ ∃ other ∈ after, key other ≤ key row) := by
  unfold pruneByKey
  cases found : (after.map key).min? with
  | none =>
    rw [List.min?_eq_none_iff, List.map_eq_nil_iff] at found
    simp [found]
  | some lowest =>
    obtain ⟨member, least⟩ := List.min?_eq_some_iff.mp found
    obtain ⟨lowest_row, there, rfl⟩ := List.mem_map.mp member
    have nonempty : after ≠ [] := List.ne_nil_of_mem there
    dsimp only
    rw [List.mem_filter, decide_eq_true_eq]
    constructor
    · rintro ⟨here, above⟩
      exact ⟨here, .inr ⟨lowest_row, there, above⟩⟩
    · rintro ⟨here, empty | ⟨other, among, above⟩⟩
      · exact absurd empty nonempty
      · exact ⟨here, (least _ (List.mem_map_of_mem among)).trans above⟩

theorem pruneByKey_perm (perm : target.Perm before) : (pruneByKey key after target).Perm (pruneByKey key after before) := by
  unfold pruneByKey
  split
  · exact perm
  · exact perm.filter _

/-- The rows inside the window whose key is not above the target's highest. -/
def Resynced (shape : Shape α τ) (options : Options τ) (key : α → Int) (highest : Int) (row : α) : Prop :=
  Recent shape options row ∧ key row ≤ highest

/-- The window's rows are taken from the source and the others from the target, if they may stand together. -/
structure Resyncs (shape : Shape α τ) (options : Options τ) (key : α → Int) (highest : Int) (rows target wanted : List α) :
    Prop where
  taken : ∀ row, row ∈ wanted ↔ row ∈ target ∧ ¬Resynced shape options key highest row ∨
    row ∈ rows ∧ Resynced shape options key highest row
  once : wanted.Nodup
  ends : Legal shape wanted → resyncWindow shape options key highest rows target = some wanted
  only : ∀ result, resyncWindow shape options key highest rows target = some result → result = wanted

theorem resyncWindow_spec (options : Options τ) (key : α → Int) (highest : Int) {rows : List α} (once : target.Nodup) (again : rows.Nodup) :
    ∃ wanted : List α, Resyncs shape options key highest rows target wanted := by
  have no_window (closed : ∀ row, ¬Recent shape options row)
      (skipped : resyncWindow shape options key highest rows target = some target) :
      ∃ wanted : List α, Resyncs shape options key highest rows target wanted := by
    refine ⟨target, ?_, once, fun _ => skipped, ?_⟩
    · intro row
      simp [Resynced, closed row]
    · intro result ran
      exact (Option.some.inj (skipped.symm.trans ran)).symm
  cases window : options.cutoff with
  | none =>
    refine no_window ?_ ?_
    · rintro row ⟨_, _, -, opened, -⟩
      rw [window] at opened
      cases opened
    · unfold resyncWindow
      rw [window]
  | some cutoff =>
    cases dated : shape.stamp with
    | none =>
      refine no_window ?_ ?_
      · rintro row ⟨_, _, found, -, -⟩
        rw [dated] at found
        cases found
      · unfold resyncWindow
        rw [window, dated]
    | some stamp =>
      have inside (row : α) : (atOrAfter stamp cutoff row && decide (key row ≤ highest)) = true ↔
          Resynced shape options key highest row := by
        rw [Bool.and_eq_true, decide_eq_true_eq]
        constructor
        · rintro ⟨recent, low⟩
          exact ⟨⟨stamp, cutoff, dated, window, recent⟩, low⟩
        · rintro ⟨⟨stamp', cutoff', found, opened, recent⟩, low⟩
          rw [dated] at found
          rw [window] at opened
          cases found
          cases opened
          exact ⟨recent, low⟩
      refine ⟨target.filter (fun row => !(atOrAfter stamp cutoff row && decide (key row ≤ highest))) ++
        rows.filter fun row => atOrAfter stamp cutoff row && decide (key row ≤ highest), ?_, ?_, ?_, ?_⟩
      · intro row
        rw [List.mem_append, List.mem_filter, List.mem_filter, Bool.not_eq_true', ← Bool.not_eq_true, inside]
      · refine List.nodup_append.mpr ⟨once.filter _, again.filter _, ?_⟩
        rintro row left _ right rfl
        have outside := (List.mem_filter.mp left).2
        rw [(List.mem_filter.mp right).2] at outside
        cases outside
      · intro legal
        unfold resyncWindow
        rw [window, dated]
        exact if_pos legal
      · intro result ran
        unfold resyncWindow at ran
        rw [window, dated] at ran
        dsimp only at ran
        unfold copyRows at ran
        split at ran
        · exact (Option.some.inj ran).symm
        · cases ran

omit [LinearOrder τ] in
theorem nodup_of_legal (keyed : shape.key = some key) (legal : Legal shape before) : before.Nodup := by
  refine List.Pairwise.imp ?_ legal
  rintro first second apart rfl
  rw [shape.conflict_of_key key keyed first first rfl] at apart
  cases apart

variable {source : Source shape}

omit [LinearOrder τ] in
theorem Source.eq_of_key (keyed : shape.key = some key) {first second : α} (here : first ∈ source.rows)
    (there : second ∈ source.rows) (same : key first = key second) : first = second := by
  have apart : (source.rows.map key).Nodup := by
    rw [List.Nodup, List.pairwise_map]
    exact (source.ordered key keyed).imp ne_of_lt
  exact List.inj_on_of_nodup_map apart here there same

omit [LinearOrder τ] in
theorem maxKey_le_top (keyed : shape.key = some key) (some_row : 0 < maxKey key source.rows) :
    maxKey key source.rows ≤ source.top := by
  unfold maxKey at some_row ⊢
  cases found : (source.rows.map key).max? with
  | none => simp [found] at some_row
  | some highest =>
    obtain ⟨row, member, rfl⟩ := List.mem_map.mp (List.max?_eq_some_iff.mp found).1
    exact (source.within key keyed row member).2

/-- What the three steps leave in the target. -/
def Taken (shape : Shape α τ) (options : Options τ) (key : α → Int) (before after : List α) (row : α) : Prop :=
  (row ∈ before ∧ (after = [] ∨ ∃ other ∈ after, key other ≤ key row) ∨ row ∈ after ∧ maxKey key before < key row) ∧
      ¬Resynced shape options key (maxKey key before) row ∨
    row ∈ after ∧ Resynced shape options key (maxKey key before) row

/-- It is of the source: what the source left is pruned, what it rewrote is in the window. -/
theorem among_source {before after : Source shape} (follows : Follows shape options key before after)
    (holds : KeyedHolds shape options key before.rows after.rows)
    (taken : Taken shape options key before.rows after.rows row) : row ∈ after.rows := by
  rcases taken with ⟨⟨there, reached⟩ | ⟨here, -⟩, outside⟩ | ⟨here, -⟩
  · have low : key row ≤ maxKey key before.rows := le_maxKey there
    have old : ¬Recent shape options row := fun recent => outside ⟨recent, low⟩
    rcases follows.kept row there old with here | below
    · exact here
    · rcases reached with empty | ⟨other, among, above⟩
      · exact absurd (holds.emptied empty row there) old
      · have := below other among
        omega
  · exact here
  · exact here

/-- And every row of the source is taken. -/
theorem of_source {before after : Source shape} (keyed : shape.key = some key)
    (follows : Follows shape options key before after) (holds : KeyedHolds shape options key before.rows after.rows)
    (here : row ∈ after.rows) : Taken shape options key before.rows after.rows row := by
  rcases lt_or_ge (maxKey key before.rows) (key row) with high | low
  · left
    refine ⟨.inr ⟨here, high⟩, ?_⟩
    rintro ⟨-, low⟩
    omega
  · by_cases recent : Recent shape options row
    · exact .inr ⟨here, recent, low⟩
    · left
      refine ⟨.inl ⟨?_, .inr ⟨row, here, le_refl _⟩⟩, fun again => recent again.1⟩
      have known : key row ≤ before.top := low.trans (maxKey_le_top keyed ((after.within key keyed row here).1.trans_le low))
      rcases follows.old row here known with there | ⟨first, there, same, was_recent⟩
      · exact there
      · exact absurd (holds.inside row here first there same was_recent) recent

/-- A keyed table ends as its source exactly where no old version is in the way and none is left behind. -/
theorem migrateByKey_iff {before after : Source shape} (keyed : shape.key = some key)
    (history : History shape options before after) (perm : target.Perm before.rows) :
    (∃ result, migrateByKey shape options key target after.rows = some result ∧ result.Perm after.rows) ↔
      KeyedHolds shape options key before.rows after.rows := by
  have follows := follows_of_history keyed history
  have highest : maxKey key target = maxKey key before.rows := by
    unfold maxKey
    rw [max?_perm (perm.map key)]
  have same_first : Legal shape (pruneByKey key after.rows target ++
        after.rows.filter fun row => maxKey key before.rows < key row) ↔
      Legal shape (pruneByKey key after.rows before.rows ++
        after.rows.filter fun row => maxKey key before.rows < key row) :=
    legal_perm ((pruneByKey_perm perm).append_right _)
  have mem_first (row : α) : row ∈ pruneByKey key after.rows target ++
        (after.rows.filter fun row => maxKey key before.rows < key row) ↔
      row ∈ before.rows ∧ (after.rows = [] ∨ ∃ other ∈ after.rows, key other ≤ key row) ∨
        row ∈ after.rows ∧ maxKey key before.rows < key row := by
    rw [List.mem_append, mem_pruneByKey, List.mem_filter, decide_eq_true_eq, perm.mem_iff]
  have whole_once : after.rows.Nodup := nodup_of_legal keyed after.legal
  unfold migrateByKey
  dsimp only
  rw [highest]
  constructor
  · rintro ⟨result, ran, whole⟩
    obtain ⟨appended, copied, resynced⟩ := Option.bind_eq_some_iff.mp ran
    unfold copyRows at copied
    split at copied
    · rename_i legal
      cases copied
      obtain ⟨wanted, mem_wanted, -, -, only⟩ := resyncWindow_spec options key
        (maxKey key before.rows) (nodup_of_legal keyed legal) whole_once
      cases only result resynced
      refine ⟨?_, same_first.mp legal, ?_⟩
      · intro empty row member
        by_contra outside
        have left : row ∈ result := by
          rw [mem_wanted, mem_first]
          exact .inl ⟨.inl ⟨member, .inl empty⟩, fun inside => outside inside.1⟩
        rw [whole.mem_iff, empty] at left
        cases left
      · intro row member first there same recent
        by_contra outside
        have low : key row ≤ maxKey key before.rows := same ▸ le_maxKey there
        have left := whole.mem_iff.mpr member
        rw [mem_wanted, mem_first] at left
        rcases left with ⟨⟨old, -⟩ | ⟨-, high⟩, -⟩ | ⟨-, inside⟩
        · rw [Source.eq_of_key keyed there old same] at recent
          exact outside recent
        · omega
        · exact outside inside.1
    · cases copied
  · rintro ⟨emptied, legal, inside⟩
    have copied : copyRows shape (after.rows.filter fun row => maxKey key before.rows < key row)
        (pruneByKey key after.rows target) = some (pruneByKey key after.rows target ++
          after.rows.filter fun row => maxKey key before.rows < key row) :=
      if_pos (same_first.mpr legal)
    obtain ⟨wanted, mem_wanted, once, ends, -⟩ := resyncWindow_spec options key
      (maxKey key before.rows) (nodup_of_legal keyed (same_first.mpr legal)) whole_once
    have whole : wanted.Perm after.rows := by
      refine (List.perm_ext_iff_of_nodup once whole_once).mpr ?_
      intro row
      rw [mem_wanted, mem_first]
      exact ⟨among_source follows ⟨emptied, legal, inside⟩, of_source keyed follows ⟨emptied, legal, inside⟩⟩
    exact ⟨wanted, by rw [copied, Option.bind_some]; exact ends ((legal_perm whole).mpr after.legal), whole⟩

end Ends

/-! ## Rows that are lost -/

/-- Measurements by their date alone. -/
def dates : Shape Nat Nat where
  key := none
  stamp := some some
  conflict _ _ := false
  conflict_symm _ _ := rfl
  conflict_of_key _ found := nomatch found

def datesOf (rows : List Nat) : Source dates where
  rows := rows
  top := 0
  legal := by
    unfold Legal
    exact List.pairwise_of_forall fun _ _ => rfl
  ordered _ found := nomatch found
  within _ found := nomatch found

/-- Named runs: the key, the name no two share, and the date last written. -/
def runs : Shape (Int × Nat × Nat) Nat where
  key := some Prod.fst
  stamp := some fun run => some run.2.2
  conflict first second := first.1 == second.1 || first.2.1 == second.2.1
  conflict_symm first second := by
    rw [Bool.beq_comm (a := first.1), Bool.beq_comm (a := first.2.1)]
  conflict_of_key column found first second same := by
    cases found
    rw [Bool.or_eq_true, beq_iff_eq]
    exact .inl same

theorem forall_key_of_runs {motive : (Int × Nat × Nat → Int) → Prop} (holds : motive Prod.fst) (key : Int × Nat × Nat → Int)
    (found : runs.key = some key) : motive key := by
  cases found
  exact holds

def runsOf (rows : List (Int × Nat × Nat)) (top : Int) (legal : Legal runs rows)
    (sorted : rows.Pairwise fun first second => first.1 < second.1)
    (bounds : ∀ row ∈ rows, 0 < row.1 ∧ row.1 ≤ top) : Source runs :=
  ⟨rows, top, legal, forall_key_of_runs sorted, forall_key_of_runs bounds⟩

/-- A run that took the name of another, which gave it up inside the window. -/
def firstRun : Source runs := runsOf [(1, 1, 9)] 1 (by decide) (by decide) (by decide)

def renamedRun : Source runs := runsOf [(1, 2, 9)] 1 (by decide) (by decide) (by decide)

def reusedName : Source runs := runsOf [(1, 2, 9), (2, 1, 9)] 2 (by decide) (by decide) (by decide)

/-- A pruned, an updated and an appended run. -/
def keptRuns : Source runs := runsOf [(2, 2, 9)] 2 (by decide) (by decide) (by decide)

def twoRuns : Source runs := runsOf [(1, 1, 1), (2, 2, 9)] 2 (by decide) (by decide) (by decide)

def latestRuns : Source runs := runsOf [(2, 2, 10), (3, 3, 11)] 3 (by decide) (by decide) (by decide)

def updatedRuns : Source runs := runsOf [(2, 2, 10)] 2 (by decide) (by decide) (by decide)

end DbaBrain.Db.DeltaMigration
