import DbaBrain.Db.BackfillTables

/-!
# Running an interrupted backfill again

An apply commits table by table and reads each watermark from the table it
writes, so a second apply starts where the first one stopped.  The maps of the
parents' keys are not read back from anywhere: the second apply finds nothing
newer in a parent that was committed and rewrites the links to it through an
empty map.
-/

namespace DbaBrain.Db.Backfill

open DbaBrain.Foundation.Sql

/-! ## Two applies and one -/

section Runs

variable (readInt : String → Option Int) (source : Source) (count : Nat) (store : Store)

/-- An apply commits its first `count` tables, with nothing else writing. -/
def Commits (run : Nat) : Prop :=
  (apply readInt run source (List.replicate count []) store).1.inserted.length = count

def uninterrupted : Store := applies readInt source 0 [List.replicate tables.length []] store

def interrupted : Store := applies readInt source 0 [List.replicate count []] store

/-- The interrupted apply, and then one that is not. -/
def resumed : Store := applies readInt source 0 [List.replicate count [], List.replicate tables.length []] store

end Runs

/-- Other keys for the rows of each table; those that were there before keep theirs. -/
structure Renaming (before : Store) where
  rename : String → Int → Int
  injective : ∀ name, Function.Injective (rename name)
  keeps : ∀ name table, before name = some table → ∀ stored ∈ table.rows, rename name stored.row.key = stored.row.key

/-- A row under other keys, its links to its parents with them. -/
def Row.renamed (rename : String → Int → Int) (spec : TableSpec) (row : Row) : Row where
  key := rename spec.name row.key
  time := row.time
  cells name :=
    match spec.links.lookup name, row.cells name with
    | some parent, .integer key => .integer (rename parent key)
    | _, value => value

def SameUpToIds (before first second : Store) : Prop :=
  ∃ keys : Renaming before, ∀ spec ∈ tables,
    Option.Rel
      (fun one other => (other.rows.map Stored.row).Perm
        (one.rows.map fun stored => stored.row.renamed keys.rename spec))
      (first spec.name) (second spec.name)

/-- A row still to carry links to a row of a parent that was committed before the interruption. -/
def LosesLink (readInt : String → Option Int) (source : Source) (count : Nat) (store : Store) : Prop :=
  ∃ child ∈ tables.drop count, ∃ parent ∈ tables.take count, ∃ link ∈ child.links, link.2 = parent.name ∧
    ∃ sourceTable table sourceParent parentTable, source child.name = some sourceTable ∧
      store child.name = some table ∧ source parent.name = some sourceParent ∧ store parent.name = some parentTable ∧
      link.1 ∈ sharedColumns sourceTable table ∧
      ∃ row ∈ newerRows sourceTable table.watermark, ∃ parentRow ∈ newerRows sourceParent parentTable.watermark,
        intOf readInt (row.cells link.1) = some parentRow.key

/-! ## An apply with nothing else writing -/

section Alone

variable {readInt : String → Option Int} {run : Nat} {source : Source}

/-- Nothing is appended before any of the tables. -/
def alone (specs : List TableSpec) : List (TableSpec × List Append) := specs.map fun spec => (spec, [])

theorem zip_replicate_nil (specs : List TableSpec) (count : Nat) :
    specs.zip (List.replicate count []) = alone (specs.take count) := by
  induction specs generalizing count with
  | nil => rw [List.zip_nil_left, List.take_nil, alone, List.map_nil]
  | cons spec rest ih =>
    cases count with
    | zero => rfl
    | succ count => rw [List.replicate_succ, List.zip_cons_cons, ih, List.take_succ_cons, alone, alone, List.map_cons]

/-- The tables of a run, each before those that link to it. -/
def ParentsFirst (specs : List TableSpec) : Prop :=
  specs.Pairwise (fun earlier later => earlier.name ≠ later.name ∧ ∀ link ∈ earlier.links, link.2 ≠ later.name) ∧
    ∀ spec ∈ specs, ∀ link ∈ spec.links, link.2 ≠ spec.name

theorem tables_parentsFirst : ParentsFirst tables := by
  unfold ParentsFirst
  decide

theorem ParentsFirst.sublist {fewer : List TableSpec} (ordered : ParentsFirst specs) (sublist : fewer.Sublist specs) :
    ParentsFirst fewer :=
  ⟨ordered.1.sublist sublist, fun spec member => ordered.2 spec (sublist.subset member)⟩

theorem parents_known : ∀ spec ∈ tables, ∀ link ∈ spec.links, ∃ parent ∈ tables,
    parent.name = link.2 ∧ parent.mapped = true ∧ parent.links = [] := by decide

/-- What a run that ends has left: each of its tables was carried from what it held, under the maps of its parents. -/
structure Ran (readInt : String → Option Int) (run : Nat) (source : Source) (specs : List TableSpec) (mappings : Mappings)
    (store : Store) (kept : Mappings) (later : Store) : Prop where
  others : ∀ name, (∀ spec ∈ specs, spec.name ≠ name) → later name = store name ∧ kept.lookup name = mappings.lookup name
  carried : ∀ spec ∈ specs, ∃ mapping, carriedBy readInt run source spec kept (store spec.name) =
    some (later spec.name, mapping) ∧ (spec.mapped = true → kept.lookup spec.name = some mapping)

variable {mappings : Mappings} {name : String}

theorem Mappings.lookup_kept_of_ne {spec : TableSpec} {mapping : List (Int × Int)} (other : spec.name ≠ name) :
    (mappings.kept spec mapping).lookup name = mappings.lookup name := by
  unfold Mappings.kept
  split
  · rw [List.lookup_cons, beq_false_of_ne (Ne.symm other)]
  · rfl

theorem Mappings.get_congr {further : Mappings} (same : mappings.lookup name = further.lookup name) (key : Int) :
    mappings.get name key = further.get name key := by
  rw [Mappings.get, same, Mappings.get]

variable {specs : List TableSpec} {progress : Progress} {store : Store}

theorem length_inserted_le : (applyTables readInt run source (alone specs) progress store).1.inserted.length ≤
    progress.inserted.length + specs.length := by
  induction specs generalizing progress store with
  | nil => exact Nat.le_refl _
  | cons spec rest ih =>
    rw [alone, List.map_cons, applyTables, List.foldl_nil]
    cases committed : carryTable readInt run source spec progress store with
    | none => exact Nat.le_add_right _ _
    | some next =>
      obtain ⟨after, later⟩ := next
      obtain ⟨_, _, _, _, _, counted⟩ := carryTable_some committed
      have rest_le : (applyTables readInt run source (alone rest) after later).1.inserted.length ≤
          after.inserted.length + rest.length := ih
      rw [counted] at rest_le
      rw [List.length_cons]
      exact rest_le.trans (by omega)

/-- A run ends just when every link it comes to can be read. -/
theorem ends_iff (ordered : ParentsFirst specs) (known : ∀ spec ∈ specs, spec ∈ tables) :
    (applyTables readInt run source (alone specs) progress store).1.inserted.length =
        progress.inserted.length + specs.length ↔
      ∀ spec ∈ specs, ReadableRows readInt source spec (store spec.name) := by
  induction specs generalizing progress store with
  | nil => simp [alone, applyTables]
  | cons spec rest ih =>
    obtain ⟨head, tail⟩ := List.forall_mem_cons.mp known
    obtain ⟨first, pairs⟩ := List.pairwise_cons.mp ordered.1
    have further : ParentsFirst rest := ordered.sublist (List.sublist_cons_self _ _)
    have committed_iff : carriedBy readInt run source spec progress.mappings (store spec.name) ≠ none ↔
        ReadableRows readInt source spec (store spec.name) := carriedBy_ne_none_iff head
    rw [List.forall_mem_cons, ← committed_iff]
    rw [alone, List.map_cons, applyTables, List.foldl_nil, List.length_cons]
    cases committed : carryTable readInt run source spec progress store with
    | none =>
      refine iff_of_false (by dsimp only; omega) ?_
      rintro ⟨ends, -⟩
      exact ends (carryTable_none.mp committed)
    | some next =>
      obtain ⟨after, later⟩ := next
      obtain ⟨held, mapping, carried, rfl, _, counted⟩ := carryTable_some committed
      have others : ∀ other ∈ rest, Function.update store spec.name held other.name = store other.name :=
        fun other member => Function.update_of_ne (first other member).1.symm _ _
      have rest_iff : (applyTables readInt run source (alone rest) after
          (Function.update store spec.name held)).1.inserted.length = after.inserted.length + rest.length ↔
            ∀ other ∈ rest, ReadableRows readInt source other (Function.update store spec.name held other.name) :=
        ih further tail
      rw [counted, Nat.add_assoc, Nat.add_comm 1] at rest_iff
      dsimp only
      refine rest_iff.trans ⟨fun readable => ⟨by simp [carried], ?_⟩, fun readable => ?_⟩
      · intro other member
        rw [← others other member]
        exact readable other member
      · intro other member
        rw [others other member]
        exact readable.2 other member

theorem ran_of_ends (ordered : ParentsFirst specs)
    (ends : (applyTables readInt run source (alone specs) progress store).1.inserted.length =
      progress.inserted.length + specs.length) :
    Ran readInt run source specs progress.mappings store
      (applyTables readInt run source (alone specs) progress store).1.mappings
      (applyTables readInt run source (alone specs) progress store).2 := by
  induction specs generalizing progress store with
  | nil => exact ⟨fun _ _ => ⟨rfl, rfl⟩, fun _ member => nomatch member⟩
  | cons spec rest ih =>
    obtain ⟨first, pairs⟩ := List.pairwise_cons.mp ordered.1
    have own := ordered.2 spec List.mem_cons_self
    have further : ParentsFirst rest := ordered.sublist (List.sublist_cons_self _ _)
    rw [alone, List.map_cons, applyTables, List.foldl_nil, ← alone] at ends ⊢
    cases committed : carryTable readInt run source spec progress store with
    | none =>
      rw [committed, List.length_cons] at ends
      dsimp only at ends
      omega
    | some next =>
      obtain ⟨after, later⟩ := next
      obtain ⟨held, mapping, carried, rfl, kept, counted⟩ := carryTable_some committed
      rw [committed, List.length_cons] at ends
      dsimp only at ends ⊢
      have rest_ends : (applyTables readInt run source (alone rest) after
          (Function.update store spec.name held)).1.inserted.length = after.inserted.length + rest.length := by
        omega
      have rest_ran := ih further rest_ends
      have untouched : ∀ name, (∀ other ∈ rest, other.name ≠ name) → spec.name ≠ name →
          (applyTables readInt run source (alone rest) after (Function.update store spec.name held)).2 name =
              store name ∧
            (applyTables readInt run source (alone rest) after
              (Function.update store spec.name held)).1.mappings.lookup name = progress.mappings.lookup name := by
        intro name apart other
        obtain ⟨same, maps⟩ := rest_ran.others name apart
        rw [Function.update_of_ne other.symm] at same
        rw [kept, Mappings.lookup_kept_of_ne other] at maps
        exact ⟨same, maps⟩
      refine ⟨fun name apart => ?_, fun other member => ?_⟩
      · obtain ⟨head, tail⟩ := List.forall_mem_cons.mp apart
        exact untouched name tail head
      · rcases List.mem_cons.mp member with rfl | among
        · obtain ⟨same, maps⟩ := rest_ran.others other.name fun later member => (first later member).1.symm
          refine ⟨mapping, ?_, fun mapped => ?_⟩
          · rw [same, Function.update_self, ← carried]
            refine carriedBy_congr fun link mentioned key => Mappings.get_congr ?_ key
            exact (untouched link.2 (fun later member => ((first later member).2 link mentioned).symm)
              (own link mentioned).symm).2
          · rw [maps, kept, Mappings.kept, if_pos mapped, List.lookup_cons, beq_self_eq_true]
        · obtain ⟨mapping, ran, mapped⟩ := rest_ran.carried other among
          rw [Function.update_of_ne (first other among).1.symm] at ran
          exact ⟨mapping, ran, mapped⟩

end Alone

/-! ## The two applies -/

section Resumed

variable {readInt : String → Option Int} {source : Source} {count : Nat} {store : Store}

/-- The maps an apply of its first `count` tables ends with. -/
def mapsOf (readInt : String → Option Int) (run : Nat) (source : Source) (count : Nat) (store : Store) : Mappings :=
  (apply readInt run source (List.replicate count []) store).1.mappings

theorem apply_alone (run : Nat) : apply readInt run source (List.replicate count []) store =
    applyTables readInt run source (alone (tables.take count)) ⟨[], [], [], []⟩ store := by
  rw [apply, zip_replicate_nil]

variable {run : Nat} {spec : TableSpec}

theorem commits_iff : Commits readInt source count store run ↔
    count ≤ tables.length ∧ ∀ spec ∈ tables.take count, ReadableRows readInt source spec (store spec.name) := by
  have ordered : ParentsFirst (tables.take count) := tables_parentsFirst.sublist (List.take_sublist _ _)
  have ends : (applyTables readInt run source (alone (tables.take count)) ⟨[], [], [], []⟩ store).1.inserted.length =
      0 + (tables.take count).length ↔ ∀ spec ∈ tables.take count, ReadableRows readInt source spec (store spec.name) :=
    ends_iff ordered fun spec member => List.mem_of_mem_take member
  have most : (applyTables readInt run source (alone (tables.take count)) ⟨[], [], [], []⟩ store).1.inserted.length ≤
      0 + (tables.take count).length := length_inserted_le
  rw [← ends, Commits, apply_alone]
  rw [List.length_take] at most ⊢
  omega

theorem ran_of_commits (committed : Commits readInt source count store run) :
    Ran readInt run source (tables.take count) [] store (mapsOf readInt run source count store)
      (apply readInt run source (List.replicate count []) store).2 := by
  have ordered : ParentsFirst (tables.take count) := tables_parentsFirst.sublist (List.take_sublist _ _)
  have ends : (applyTables readInt run source (alone (tables.take count)) ⟨[], [], [], []⟩ store).1.inserted.length =
      0 + (tables.take count).length :=
    (ends_iff ordered fun spec member => List.mem_of_mem_take member).mpr (commits_iff.mp committed).2
  rw [mapsOf, apply_alone]
  exact ran_of_ends ordered ends

/-- A table's parents are committed before it. -/
theorem parent_of_taken (member : spec ∈ tables.take count) {link : String × String} (mentioned : link ∈ spec.links) :
    ∃ parent ∈ tables.take count,
      parent.name = link.2 ∧ parent.mapped = true ∧ parent.links = [] := by
  obtain ⟨parent, known, named, mapped, parentless⟩ :=
    parents_known spec (List.mem_of_mem_take member) link mentioned
  rw [← List.take_append_drop count tables, List.mem_append] at known
  rcases known with before | behind
  · exact ⟨parent, before, named, mapped, parentless⟩
  · have ordered := tables_parentsFirst.1
    rw [← List.take_append_drop count tables, List.pairwise_append] at ordered
    exact absurd named.symm ((ordered.2.2 spec member parent behind).2 link mentioned)

theorem not_taken (behind : spec ∈ tables.drop count) : ∀ earlier ∈ tables.take count, earlier.name ≠ spec.name := by
  have ordered := tables_parentsFirst.1
  rw [← List.take_append_drop count tables, List.pairwise_append] at ordered
  exact fun earlier member => (ordered.2.2 earlier member spec behind).1

variable {parent : TableSpec}

/-- A parent's map does not depend on what else an apply carries. -/
theorem map_of_parent {run' : Nat} {specs specs' : List TableSpec} {kept kept' : Mappings} {store' later later' : Store}
    (ran : Ran readInt run source specs [] store kept later)
    (ran' : Ran readInt run' source specs' [] store' kept' later') (member : parent ∈ specs) (member' : parent ∈ specs')
    (same : store' parent.name = store parent.name) (mapped : parent.mapped = true) (parentless : parent.links = []) :
    kept.lookup parent.name = kept'.lookup parent.name := by
  obtain ⟨mapping, carried, found⟩ := ran.carried parent member
  obtain ⟨mapping', carried', found'⟩ := ran'.carried parent member'
  rw [same] at carried'
  have alike : Option.Rel (fun one other => one.1.map Table.forget = other.1.map Table.forget ∧ one.2 = other.2)
      (carriedBy readInt run source parent kept (store parent.name))
      (carriedBy readInt run' source parent kept' (store parent.name)) :=
    carriedBy_alike fun _ _ _ _ _ _ _ _ _ _ link => by simp [parentless] at link
  rw [carried, carried'] at alike
  cases alike with
  | some same => exact (found mapped).trans ((congrArg some same.2).trans (found' mapped).symm)

theorem ran_of_ending (committed : Commits readInt source tables.length store run) :
    Ran readInt run source tables [] store (mapsOf readInt run source tables.length store)
      (apply readInt run source (List.replicate tables.length []) store).2 := by
  have ran := ran_of_commits committed
  rwa [List.take_length] at ran

variable (committed : Commits readInt source count store 0)
  (ends : Commits readInt source tables.length (interrupted readInt source count store) 1)

include committed in
theorem interrupted_of_left (behind : spec ∈ tables.drop count) :
    interrupted readInt source count store spec.name = store spec.name :=
  ((ran_of_commits committed).others spec.name (not_taken behind)).1

include committed ends

theorem uninterrupted_commits : Commits readInt source tables.length store 0 := by
  refine commits_iff.mpr ⟨Nat.le_refl _, fun spec member => ?_⟩
  have again := (commits_iff.mp ends).2 spec member
  rw [List.take_length, ← List.take_append_drop count tables, List.mem_append] at member
  rcases member with before | behind
  · exact (commits_iff.mp committed).2 spec before
  · rwa [interrupted_of_left committed behind] at again

/-- The second apply maps no row of a parent that was committed. -/
theorem unmapped_again (before : parent ∈ tables.take count) (mapped : parent.mapped = true)
    (parentless : parent.links = []) (key : Int) :
    (mapsOf readInt 1 source tables.length (interrupted readInt source count store)).get parent.name key = none := by
  obtain ⟨_, first, -⟩ := (ran_of_commits committed).carried parent before
  obtain ⟨mapping, again, found⟩ := (ran_of_ending ends).carried parent (List.mem_of_mem_take before)
  have nothing : carriedBy readInt 1 source parent
      (mapsOf readInt 1 source tables.length (interrupted readInt source count store))
      (interrupted readInt source count store parent.name) =
        some (interrupted readInt source count store parent.name, []) :=
    carriedBy_again first fun link mentioned => by simp [parentless] at mentioned
  have same : mapping = [] := congrArg Prod.snd (Option.some.inj (again.symm.trans nothing))
  rw [Mappings.get, found mapped, same]
  rfl

theorem resumed_of_taken (before : spec ∈ tables.take count) :
    resumed readInt source count store spec.name = uninterrupted readInt source store spec.name := by
  have single := ran_of_ending (uninterrupted_commits committed ends)
  have known := List.mem_of_mem_take before
  obtain ⟨_, first, -⟩ := (ran_of_commits committed).carried spec before
  obtain ⟨_, again, -⟩ := (ran_of_ending ends).carried spec known
  obtain ⟨_, whole, -⟩ := single.carried spec known
  have nothing : carriedBy readInt 1 source spec
      (mapsOf readInt 1 source tables.length (interrupted readInt source count store))
      (interrupted readInt source count store spec.name) =
        some (interrupted readInt source count store spec.name, []) := by
    refine carriedBy_again first fun link mentioned key => ?_
    obtain ⟨parent, member, named, mapped, parentless⟩ := parent_of_taken before mentioned
    rw [← named]
    exact unmapped_again committed ends member mapped parentless key
  have agree : carriedBy readInt 0 source spec (mapsOf readInt 0 source count store) (store spec.name) =
      carriedBy readInt 0 source spec (mapsOf readInt 0 source tables.length store) (store spec.name) := by
    refine carriedBy_congr fun link mentioned key => ?_
    obtain ⟨parent, member, named, mapped, parentless⟩ := parent_of_taken before mentioned
    rw [← named]
    exact Mappings.get_congr (map_of_parent (ran_of_commits committed) single member (List.mem_of_mem_take member)
      rfl mapped parentless) key
  have kept : resumed readInt source count store spec.name = interrupted readInt source count store spec.name :=
    congrArg Prod.fst (Option.some.inj (again.symm.trans nothing))
  rw [kept]
  exact congrArg Prod.fst (Option.some.inj (first.symm.trans (agree.trans whole)))

theorem alike_of_left (keeps : ¬LosesLink readInt source count store) (behind : spec ∈ tables.drop count) :
    (uninterrupted readInt source store spec.name).map Table.forget =
      (resumed readInt source count store spec.name).map Table.forget := by
  have single := ran_of_ending (uninterrupted_commits committed ends)
  have known := List.mem_of_mem_drop behind
  obtain ⟨_, again, -⟩ := (ran_of_ending ends).carried spec known
  obtain ⟨_, whole, -⟩ := single.carried spec known
  rw [interrupted_of_left committed behind] at again
  have alike : Option.Rel (fun one other => one.1.map Table.forget = other.1.map Table.forget ∧ one.2 = other.2)
      (carriedBy readInt 0 source spec (mapsOf readInt 0 source tables.length store) (store spec.name))
      (carriedBy readInt 1 source spec
        (mapsOf readInt 1 source tables.length (interrupted readInt source count store)) (store spec.name)) := by
    refine carriedBy_alike fun sourceTable table origin present row newer name shared parentName key link names => ?_
    obtain ⟨parent, member, rfl, mapped, parentless⟩ := parents_known spec known _ (mem_of_lookup link)
    rw [← List.take_append_drop count tables, List.mem_append] at member
    rcases member with before | later
    · rw [unmapped_again committed ends before mapped parentless]
      by_contra found
      obtain ⟨mapping, carried, kept⟩ := single.carried parent (List.mem_of_mem_take before)
      rw [Mappings.get, kept mapped] at found
      obtain ⟨sourceParent, parentTable, origin', present', parentRow, newer', same⟩ := mapped_of_carriedBy carried found
      exact keeps ⟨spec, behind, parent, before, _, mem_of_lookup link, rfl, sourceTable, table, sourceParent,
        parentTable, origin, present, origin', present', shared, row, newer, parentRow, newer', names.trans
          (congrArg some same.symm)⟩
    · exact Mappings.get_congr (map_of_parent single (ran_of_ending ends) (List.mem_of_mem_drop later)
        (List.mem_of_mem_drop later) (interrupted_of_left committed later) mapped parentless) key
  rw [whole, again] at alike
  cases alike with
  | some same => exact same.1

/-- A link that is lost leaves fewer rows that link. -/
theorem linking_lt_of_loses (loses : LosesLink readInt source count store) :
    ∃ child ∈ tables, ∃ link ∈ child.links, ∃ one other, uninterrupted readInt source store child.name = some one ∧
      resumed readInt source count store child.name = some other ∧ linking link.1 other < linking link.1 one := by
  obtain ⟨child, behind, parent, before, link, mentioned, named, sourceTable, table, sourceParent, parentTable, origin,
    present, origin', present', shared, row, newer, parentRow, newer', names⟩ := loses
  have known := List.mem_of_mem_drop behind
  obtain ⟨mapped, parentless⟩ : parent.mapped = true ∧ parent.links = [] := by
    obtain ⟨same, among, equal, mapped, parentless⟩ := parents_known child known link mentioned
    obtain rfl := eq_of_name_eq same among parent (List.mem_of_mem_take before) (equal.trans named)
    exact ⟨mapped, parentless⟩
  have single := ran_of_ending (uninterrupted_commits committed ends)
  obtain ⟨_, again, -⟩ := (ran_of_ending ends).carried child known
  obtain ⟨_, whole, -⟩ := single.carried child known
  rw [interrupted_of_left committed behind, present] at again
  rw [present] at whole
  obtain ⟨other, loop', left', -⟩ := carriedBy_present origin again
  obtain ⟨one, loop, left, -⟩ := carriedBy_present origin whole
  obtain ⟨replacement, found⟩ : ∃ replacement,
      (mapsOf readInt 0 source tables.length store).get link.2 parentRow.key = some replacement := by
    obtain ⟨_, carried, kept⟩ := single.carried parent (List.mem_of_mem_take before)
    rw [present'] at carried
    obtain ⟨carrying, ran, -, rfl⟩ := carriedBy_present origin' carried
    rw [named, Mappings.get, kept mapped]
    exact Option.ne_none_iff_exists'.mp (mapped_of_parent ran mapped parentless newer')
  refine ⟨child, known, link, mentioned, one.table, other.table, left, left', ?_⟩
  have only : ∀ name ∈ sharedColumns sourceTable table, ∀ parentName, child.links.lookup name = some parentName →
      (name, parentName) = link := fun name _ parentName own =>
    single_link child known _ (mem_of_lookup own) link mentioned
  calc linking link.1 other.table
      = linking link.1 table := linking_eq known mentioned (fun key => named ▸ unmapped_again committed ends before mapped
          parentless key) loop'
    _ < linking link.1 one.table := linking_lt loop only shared (lookup_link child known link mentioned) newer names found

end Resumed

/-! ## The same rows -/

section Same

variable {before first second : Store} {spec : TableSpec}

theorem Row.renamed_id (spec : TableSpec) (row : Row) : row.renamed (fun _ key => key) spec = row := by
  obtain ⟨key, time, cells⟩ := row
  rw [Row.renamed, Row.mk.injEq]
  refine ⟨rfl, rfl, funext fun name => ?_⟩
  dsimp only
  split
  · rename_i integer
    exact integer.symm
  · rfl

variable {name : String}

theorem Row.renamed_null {rename : String → Int → Int} {row : Row} :
    (row.renamed rename spec).cells name = .null ↔ row.cells name = .null := by
  rw [Row.renamed]
  dsimp only
  split
  · rename_i integer
    simp [integer]
  · rfl

theorem sameUpToIds_of_forget
    (same : ∀ spec ∈ tables, (first spec.name).map Table.forget = (second spec.name).map Table.forget) :
    SameUpToIds before first second := by
  refine ⟨⟨fun _ key => key, fun _ => Function.injective_id, fun _ _ _ _ _ => rfl⟩, fun spec known => ?_⟩
  have own := same spec known
  cases one : first spec.name with
  | none =>
    rw [one, Option.map_none, eq_comm, Option.map_eq_none_iff] at own
    rw [own]
    exact Option.Rel.none
  | some table =>
    rw [one, Option.map_some, eq_comm, Option.map_eq_some_iff] at own
    obtain ⟨other, present, alike⟩ := own
    rw [present]
    have rows : other.rows.map Stored.row = table.rows.map Stored.row := congrArg Before.rows alike
    refine Option.Rel.some ?_
    simp only [Row.renamed_id]
    rw [rows]

theorem linking_of_sameUpToIds {one other : Table} (same : SameUpToIds before first second) (known : spec ∈ tables)
    (here : first spec.name = some one) (there : second spec.name = some other) :
    linking name one = linking name other := by
  obtain ⟨keys, rows⟩ := same
  have own := rows spec known
  rw [here, there] at own
  cases own with
  | some perm =>
    have counted := perm.countP_eq fun row => row.cells name ≠ .null
    rw [List.countP_map, List.countP_map] at counted
    rw [linking, linking]
    refine Eq.trans ?_ counted.symm
    refine List.countP_congr fun stored _ => ?_
    simp [Row.renamed_null]

end Same

/-- An interrupted apply that is run again to its end leaves what one apply leaves, up to the keys given, just when no
row that was still to carry links to a row of a parent that was committed before the interruption. -/
theorem resumed_iff (readInt : String → Option Int) (source : Source) (count : Nat) (store : Store)
    (committed : Commits readInt source count store 0)
    (ends : Commits readInt source tables.length (interrupted readInt source count store) 1) :
    SameUpToIds store (uninterrupted readInt source store) (resumed readInt source count store) ↔
      ¬LosesLink readInt source count store := by
  constructor
  · intro same loses
    obtain ⟨child, known, link, -, one, other, here, there, fewer⟩ := linking_lt_of_loses committed ends loses
    exact fewer.ne' (linking_of_sameUpToIds same known here there)
  · intro keeps
    refine sameUpToIds_of_forget fun spec known => ?_
    rw [← List.take_append_drop count tables, List.mem_append] at known
    rcases known with before | behind
    · rw [resumed_of_taken committed ends before]
    · exact alike_of_left committed ends keeps behind

/-! ### A result after its run -/

def standIn : Source := fun name =>
  if name = "metric_runs" then some ⟨["node"], [⟨1, "2026-08-14 00:00:00", fun _ => .null⟩], by decide⟩
  else if name = "metric_results" then some ⟨["run_id"], [⟨1, "2026-08-14 00:00:00", fun _ => .integer 1⟩], by decide⟩
  else none

/-- The two tables without a row. -/
def shared : Store := fun name =>
  if name = "metric_runs" then some ⟨["node"], ["node"], fun _ => .null, [], 1, fun _ _ _ _ => rfl⟩
  else if name = "metric_results" then some ⟨["run_id"], [], fun _ => .null, [], 1, fun _ _ _ _ => rfl⟩
  else none

theorem standIn_commits {readInt : String → Option Int} {count run : Nat} (most : count ≤ tables.length) (store : Store) :
    Commits readInt standIn count store run := by
  refine commits_iff.mpr ⟨most, fun spec _ sourceTable table origin _ row newer name _ _ present unread => ?_⟩
  have member := (mem_newerRows.mp newer).1
  unfold standIn at origin
  split at origin
  · obtain rfl := Option.some.inj origin
    obtain rfl := List.mem_singleton.mp member
    exact present rfl
  · split at origin
    · obtain rfl := Option.some.inj origin
      obtain rfl := List.mem_singleton.mp member
      cases unread
    · cases origin

theorem standIn_loses (readInt : String → Option Int) : LosesLink readInt standIn 1 shared := by
  refine ⟨⟨"metric_results", "collected_at", "result_id", [("run_id", "metric_runs")], false⟩, by decide,
    ⟨"metric_runs", "started_at", "run_id", [], true⟩, by decide, ("run_id", "metric_runs"), by decide, rfl,
    _, _, _, _, rfl, rfl, rfl, rfl, by decide, ⟨1, "2026-08-14 00:00:00", fun _ => .integer 1⟩, ?_,
    ⟨1, "2026-08-14 00:00:00", fun _ => .null⟩, ?_, rfl⟩
  · exact mem_newerRows.mpr ⟨List.mem_singleton_self _, by decide⟩
  · exact mem_newerRows.mpr ⟨List.mem_singleton_self _, by decide⟩

theorem resumed_iff_standIn : SameUpToIds shared (uninterrupted (fun _ => none) standIn shared)
    (resumed (fun _ => none) standIn 1 shared) ↔ ¬LosesLink (fun _ => none) standIn 1 shared :=
  resumed_iff _ standIn 1 shared (standIn_commits (by decide) _) (standIn_commits (by decide) _)

/-- Stopped after its runs, an apply that is run again leaves their results out. -/
theorem result_is_lost :
    ¬∀ (readInt : String → Option Int) (source : Source) (count : Nat) (store : Store),
      Commits readInt source count store 0 →
      Commits readInt source tables.length (interrupted readInt source count store) 1 →
      SameUpToIds store (uninterrupted readInt source store) (resumed readInt source count store) := by
  intro claim
  have committed : Commits (fun _ => none) standIn 1 shared 0 := standIn_commits (by decide) shared
  have ends : Commits (fun _ => none) standIn tables.length (interrupted (fun _ => none) standIn 1 shared) 1 :=
    standIn_commits (Nat.le_refl _) _
  obtain ⟨child, known, link, -, one, other, here, there, fewer⟩ :=
    linking_lt_of_loses committed ends (standIn_loses _)
  exact fewer.ne' (linking_of_sameUpToIds (claim _ standIn 1 shared committed ends) known here there)

end DbaBrain.Db.Backfill
