import DbaBrain.Lib.BundlePaths

/-!
# What an import leaves

An import places its entries one by one and does not take back what it has placed.
Each entry is staged beside its target and moved over it, so that a target holds
what it held or the entry's bytes, whatever the file system refuses; the entries
that were not placed are placed when the import is run again.
-/

namespace DbaBrain.Lib.ConfigBundle

open DbaBrain.Foundation
open FileTree (Tree)

/-! ## Where an entry is placed -/

section Places

variable {root : Path} {first second : Str} {target staging other : Path}

theorem joinParts_concat (parts : List Str) (last more : Str) :
    joinParts (parts ++ [last ++ more]) = joinParts (parts ++ [last]) ++ more := by
  cases parts with
  | nil => simp [joinParts]
  | cons part rest =>
    rw [joinParts_append (List.cons_ne_nil part rest) (List.cons_ne_nil _ _),
      joinParts_append (List.cons_ne_nil part rest) (List.cons_ne_nil _ _)]
    simp [joinParts]

theorem place?_ne_nil {text : Str} : place? text ≠ some [] := by
  intro placed
  have parts : (splitParts text).mapM fileName? = some [] := placed
  cases split : splitParts text with
  | nil => exact List.splitOn_ne_nil _ _ split
  | cons part rest =>
    rw [split, List.mapM_cons] at parts
    obtain ⟨name, _, later⟩ := Option.bind_eq_some_iff.mp parts
    obtain ⟨others, _, same⟩ := Option.bind_eq_some_iff.mp later
    cases Option.some.inj same

theorem exists_of_target? (placed : target? root first = some target) :
    ∃ relative, relative ≠ [] ∧ first = relativeText relative ∧ target = root ++ relative := by
  obtain ⟨relative, found, rfl⟩ := Option.map_eq_some_iff.mp placed
  refine ⟨relative, ?_, eq_relativeText_of_place? found, rfl⟩
  rintro rfl
  exact place?_ne_nil found

/-- Two texts that are one path are one text. -/
theorem target?_inj (one : target? root first = some target) (two : target? root second = some target) : first = second := by
  obtain ⟨relative, _, rfl, rfl⟩ := exists_of_target? one
  obtain ⟨other, _, rfl, same⟩ := exists_of_target? two
  rw [List.append_cancel_left_eq] at same
  rw [same]

/-- A text that is the path of a staging file is the staging name of its target. -/
theorem eq_stagingName (placed : target? root first = some target) (beside : staging? target = some staging)
    (same : target? root second = some staging) : second = stagingName first := by
  obtain ⟨relative, some_part, rfl, rfl⟩ := exists_of_target? placed
  obtain ⟨other, _, rfl, stated⟩ := exists_of_target? same
  obtain ⟨front, last, name, whole, fits, rfl⟩ := staging?_of_target beside
  obtain ⟨inner, final, rfl⟩ : ∃ inner final, relative = inner ++ [final] :=
    ⟨_, _, (List.dropLast_append_getLast some_part).symm⟩
  obtain ⟨rfl, ends⟩ := List.append_inj' ((List.append_assoc root inner [final]).trans whole) rfl
  obtain rfl : final = last := by simpa using ends
  rw [List.append_assoc, List.append_cancel_left_eq] at stated
  rw [← stated, relativeText, relativeText, List.map_append, List.map_append, List.map_cons, List.map_cons,
    val_of_fileName? fits, stagingName, List.map_nil, joinParts_concat]
  rfl

/-- Where a target is on the way to another, its text's parts are the first of the other's. -/
theorem splitParts_nested (one : target? root first = some target) (two : target? root second = some other)
    (above : target <+: other) : splitParts first <+: splitParts second := by
  obtain ⟨relative, some_part, rfl, rfl⟩ := exists_of_target? one
  obtain ⟨longer, more, rfl, rfl⟩ := exists_of_target? two
  rw [splitParts_relativeText some_part, splitParts_relativeText more]
  exact ((List.prefix_append_right_inj root).mp above).map Subtype.val

end Places

/-! ## Placing one entry -/

section Placing

variable {files : Files} {target staging : Path} {payload : Bytes} {fault : Option Fault}
variable {result : Option Files}

theorem stepOf_through (through : (stepOf files result).2 = true) : result = some (stepOf files result).1 := by
  cases result with
  | none => cases through
  | some after => rfl

theorem stepOf_refused (refused : (stepOf files result).2 = false) : (stepOf files result).1 = files := by
  cases result with
  | none => rfl
  | some after => cases refused

/-- A staging file that is written holds the whole payload. -/
theorem content?_writeStaging_through (through : (writeStaging files staging payload fault).2 = true) :
    FileTree.content? (writeStaging files staging payload fault).1 staging = some payload := by
  revert through
  fun_cases writeStaging files staging payload fault with
  | case1 => exact fun through => absurd through (by simp)
  | case2 => exact fun through => absurd through (by simp)
  | case3 =>
    intro through
    rw [FileTree.content?_writeFile (stepOf_through through), if_pos rfl]

theorem content?_moveStaging_target (held : FileTree.content? files staging = some payload) :
    FileTree.content? (moveStaging files staging target fault).1 target =
      if (moveStaging files staging target fault).2 then some payload else FileTree.content? files target := by
  fun_cases moveStaging files staging target fault with
  | case1 => rfl
  | case2 =>
    split
    · next through => rw [FileTree.content?_moveFile held (stepOf_through through), if_pos rfl]
    · next refused => rw [stepOf_refused (by simpa using refused)]

theorem content?_placeBeside_target (apart : target ≠ staging) :
    FileTree.content? (placeBeside files staging target payload fault).1 target =
      if (placeBeside files staging target payload fault).2 then some payload else FileTree.content? files target := by
  have parents := @content?_makeParents files target fault target
  rw [placeBeside, Step.andThen]
  split
  · rw [Step.andThen]
    have staged := (@content?_writeStaging (makeParents files target fault).1 staging payload fault target apart).trans
      parents
    split
    · next written =>
        rw [content?_moveStaging_target (content?_writeStaging_through written), staged]
    · exact staged
  · exact parents

/-- A target holds the entry's bytes where placing them went through, and what it held where it did not. -/
theorem content?_placeEntry_target :
    FileTree.content? (placeEntry files (some target) payload fault).1 target =
      if (placeEntry files (some target) payload fault).2 then some payload else FileTree.content? files target := by
  rw [placeEntry]
  cases beside : staging? target with
  | none => rfl
  | some staging => exact content?_placeBeside_target (staging_ne_target beside).symm

theorem stepOf_invariant {kept : Files → Prop} (before : kept files)
    (changed : ∀ after, result = some after → kept after) : kept (stepOf files result).1 := by
  cases result with
  | none => exact before
  | some after => exact changed after rfl

theorem andThen_invariant {kept : Files → Prop} {step : Step} {next : Files → Step} (first : kept step.1)
    (later : ∀ files, kept files → kept (next files).1) : kept (step.andThen next).1 := by
  rw [Step.andThen]
  split
  · exact later step.1 first
  · exact first

/-- What making a directory on the way to the target, writing the staging file and moving it over the target
keep, placing keeps. -/
theorem placeBeside_invariant (kept : Files → Prop)
    (made : ∀ files part, part <+: target.dropLast → kept files → kept (files.set part .directory))
    (wrote : ∀ files content, kept files → kept (files.set staging (.file content)))
    (moved : ∀ files content, kept files →
      kept (((files.restrict fun path => path ≠ staging) : Files).set target (.file content)))
    (before : kept files) : kept (placeBeside files staging target payload fault).1 := by
  have parents : kept (makeParents files target fault).1 := by
    fun_cases makeParents files target fault with
    | case1 count =>
      rw [FileTree.makeFirst]
      split
      · exact before
      · exact FileTree.makeAll_invariant (fun files part member =>
          made files part (FileTree.prefix_of_mem_missing (List.mem_of_mem_take member))) before
    | case2 =>
      refine stepOf_invariant before fun after same => ?_
      rw [FileTree.eq_of_makeDirectories same]
      exact FileTree.makeAll_invariant (fun files part member =>
        made files part (FileTree.prefix_of_mem_missing member)) before
  have written : ∀ (files : Files) content, kept files →
      kept (stepOf files (FileTree.writeFile files staging content)).1 := by
    intro files content held
    refine stepOf_invariant held fun after same => ?_
    rw [FileTree.eq_of_writeFile same]
    exact wrote files content held
  refine andThen_invariant parents fun files held => andThen_invariant ?_ fun files held => ?_
  · fun_cases writeStaging files staging payload fault with
    | case1 => exact held
    | case2 left => exact written files left held
    | case3 => exact written files payload held
  · fun_cases moveStaging files staging target fault with
    | case1 => exact held
    | case2 =>
      refine stepOf_invariant held fun after same => ?_
      obtain ⟨content, rfl⟩ := FileTree.eq_of_moveFile same
      exact moved files content held

/-- Placing makes a directory of no path but those on the way to the target. -/
theorem not_directory_placeEntry {other : Path} {place : Option Path}
    (aside : ∀ path, place = some path → ¬ other <+: path.dropLast) (free : files.get? other ≠ some .directory) :
    (placeEntry files place payload fault).1.get? other ≠ some .directory := by
  fun_cases placeEntry files place payload fault with
  | case1 => exact free
  | case2 => exact free
  | case3 target staging _ =>
    refine placeBeside_invariant (fun files => files.get? other ≠ some .directory) ?_ ?_ ?_ free
    · intro files part inside held
      rw [Dict.get?_set, if_neg]
      · exact held
      · rintro rfl
        exact aside target rfl inside
    · intro files content held
      rw [Dict.get?_set]
      split
      · simp
      · exact held
    · intro files content held
      rw [Dict.get?_set, Dict.get?_restrict]
      split
      · simp
      · split
        · exact held
        · simp

end Placing

/-! ## The loop -/

section Loop

variable {root : Path} {files : Files} {faults : Str → Option Fault} {plans : List Planned}

structure Apart (paths : List Str) : Prop where
  distinct : paths.Nodup
  unstaged : ∀ first ∈ paths, ∀ second ∈ paths, second ≠ stagingName first

theorem Apart.tail {first : Str} {rest : List Str} (apart : Apart (first :: rest)) : Apart rest :=
  ⟨(List.nodup_cons.mp apart.distinct).2, fun one listed other also =>
    apart.unstaged one (List.mem_cons_of_mem first listed) other (List.mem_cons_of_mem first also)⟩

/-- An entry that is placed leaves the targets of the others. -/
theorem Apart.of_ne {paths : List Str} (apart : Apart paths) {one other : Str} (listed : one ∈ paths)
    (also : other ∈ paths) (differ : one ≠ other) {target : Path} (place : target? root other = some target) :
    ∀ path, target? root one = some path → target ≠ path ∧ staging? path ≠ some target := by
  intro path here
  constructor
  · rintro rfl
    exact differ (target?_inj here place)
  · intro beside
    exact apart.unstaged one listed other also (eq_stagingName here beside place)

/-- What a plan that was found identical says of the tree. -/
def Truthful (root : Path) (files : Files) (plan : Planned) : Prop :=
  plan.action = .identical →
    ∃ target, target? root plan.path = some target ∧ FileTree.content? files target = some plan.payload

/-- What a run of the loop leaves of a plan: its target holds what it held or the payload,
and the payload where the loop came to its end. -/
structure Left (root : Path) (files : Files) (plan : Planned) (after : Files × Option Str) : Prop where
  whole : ∀ target, target? root plan.path = some target →
    FileTree.content? after.1 target = some plan.payload ∨
      FileTree.content? after.1 target = FileTree.content? files target
  complete : after.2 = none →
    ∃ target, target? root plan.path = some target ∧ FileTree.content? after.1 target = some plan.payload

theorem left_placeAll (apart : Apart (plans.map Planned.path)) (truthful : ∀ plan ∈ plans, Truthful root files plan) :
    ∀ plan ∈ plans, Left root files plan (placeAll root faults files plans) := by
  induction plans generalizing files with
  | nil => simp
  | cons first rest ih =>
    have named : ∀ plan ∈ rest, plan.path ∈ (first :: rest).map Planned.path := fun plan member =>
      List.mem_map_of_mem (List.mem_cons_of_mem first member)
    have head : first.path ∈ (first :: rest).map Planned.path := List.mem_map_of_mem List.mem_cons_self
    have differ : ∀ plan ∈ rest, first.path ≠ plan.path := by
      intro plan member same
      have distinct := (List.nodup_cons.mp apart.distinct).1
      exact distinct (same ▸ List.mem_map_of_mem member)
    -- the plans that follow leave the first target
    have later : ∀ target, target? root first.path = some target → ∀ files,
        FileTree.content? (placeAll root faults files rest).1 target = FileTree.content? files target := by
      intro target place files
      apply content?_placeAll_other
      intro plan member
      exact apart.of_ne (named plan member) head (differ plan member).symm place
    rw [placeAll]
    split
    · next same =>
        intro plan member
        rcases List.mem_cons.mp member with rfl | further
        · refine ⟨fun target place => Or.inr (later target place files), fun _ => ?_⟩
          obtain ⟨target, place, held⟩ := truthful plan List.mem_cons_self same
          exact ⟨target, place, (later target place files).trans held⟩
        · exact ih apart.tail (fun plan member => truthful plan (List.mem_cons_of_mem first member)) plan further
    · -- placing the first leaves the targets of the others
      have others : ∀ plan ∈ rest, ∀ target, target? root plan.path = some target →
          FileTree.content? (placeEntry files (target? root first.path) first.payload (faults first.path)).1 target =
            FileTree.content? files target := fun plan member target place =>
        content?_placeEntry_other (apart.of_ne head (named plan member) (differ plan member) place)
      rcases step : placeEntry files (target? root first.path) first.payload (faults first.path) with ⟨after, through⟩
      rw [step] at others
      have placed : ∀ target, target? root first.path = some target →
          FileTree.content? after target = if through then some first.payload else FileTree.content? files target := by
        intro target place
        have held := @content?_placeEntry_target files target first.payload (faults first.path)
        rwa [← place, step] at held
      cases through with
      | false =>
        intro plan member
        refine ⟨fun target place => Or.inr ?_, fun stopped => absurd stopped (by simp)⟩
        rcases List.mem_cons.mp member with rfl | further
        · exact placed target place
        · exact others plan further target place
      | true =>
        have kept : ∀ plan ∈ rest, Truthful root after plan := by
          intro plan member same
          obtain ⟨target, place, held⟩ := truthful plan (List.mem_cons_of_mem first member) same
          exact ⟨target, place, (others plan member target place).trans held⟩
        intro plan member
        rcases List.mem_cons.mp member with rfl | further
        · have whole : ∀ target, target? root plan.path = some target →
              FileTree.content? (placeAll root faults after rest).1 target = some plan.payload :=
            fun target place => (later target place after).trans (placed target place)
          refine ⟨fun target place => Or.inl (whole target place), fun _ => ?_⟩
          cases place : target? root plan.path with
          | none =>
            rw [place, placeEntry] at step
            cases step
          | some target => exact ⟨target, rfl, whole target place⟩
        · have left := ih apart.tail kept plan further
          refine ⟨fun target place => ?_, left.complete⟩
          rw [← others plan further target place]
          exact left.whole target place

/-- A run of the loop makes a directory of no path but those on the way to its targets. -/
theorem not_directory_placeAll {other : Path}
    (aside : ∀ plan ∈ plans, ∀ path, target? root plan.path = some path → ¬ other <+: path.dropLast)
    (free : files.get? other ≠ some .directory) :
    (placeAll root faults files plans).1.get? other ≠ some .directory := by
  induction plans generalizing files with
  | nil => exact free
  | cons first rest ih =>
    have later := fun plan member => aside plan (List.mem_cons_of_mem first member)
    rw [placeAll]
    split
    · exact ih later free
    · have placed := @not_directory_placeEntry files first.payload (faults first.path) other _
        (aside first List.mem_cons_self) free
      rcases step : placeEntry files (target? root first.path) first.payload (faults first.path) with ⟨after, through⟩
      rw [step] at placed
      cases through with
      | true => exact ih later placed
      | false => exact placed

end Loop

/-! ## The import -/

section Import

variable {python : Python} {files : Files} {root : Path} {read entries : List (BundleEntry python)}

theorem notMem_of_readFile {seen : List Str} {path : Str} {member : python.Json} {entry : BundleEntry python}
    (made : readFile python seen path member = .ok entry) : entry.path ∉ seen := by
  obtain ⟨relative, _, made⟩ := Execution.bind_eq_ok made
  split at made
  · cases made
  · next fresh =>
      split at made
      · rw [(role_of_readMember made).1]
        exact fresh
      · cases made

/-- An accepted bundle states each path once. -/
theorem nodup_paths {seen : List Str} {members : List (Str × python.Json)}
    (accepted : readFiles python seen members = .ok read) :
    (read.map BundleEntry.path).Nodup ∧ ∀ entry ∈ read, entry.path ∉ seen := by
  induction members generalizing seen read with
  | nil =>
    obtain rfl := Except.ok.inj accepted
    simp
  | cons first rest ih =>
    obtain ⟨held, made, later⟩ := Execution.bind_eq_ok accepted
    obtain ⟨others, next, whole⟩ := Execution.bind_eq_ok later
    obtain rfl := Except.ok.inj whole
    obtain ⟨distinct, fresh⟩ := ih next
    constructor
    · rw [List.map_cons, List.nodup_cons]
      refine ⟨fun again => ?_, distinct⟩
      obtain ⟨entry, member, same⟩ := List.mem_map.mp again
      exact fresh entry member (same ▸ List.mem_cons_self)
    · intro entry member
      rcases List.mem_cons.mp member with rfl | further
      · exact notMem_of_readFile made
      · exact fun past => fresh entry further (List.mem_cons_of_mem _ past)

structure PlanOf (files : Files) (root : Path) (entry : BundleEntry python) (plan : Planned) : Prop where
  path : plan.path = entry.path
  rendered : entry.renderedBytes = .ok plan.payload
  action : plan.action = actionAt files (target? root entry.path) plan.payload

variable {plans : List Planned}

theorem planOf_planned (ok : planned files root entries = .ok plans) :
    List.Forall₂ (PlanOf files root) entries plans := by
  refine (Execution.forall₂_of_mapM ok).imp fun entry plan made => ?_
  obtain ⟨payload, rendered, later⟩ := Execution.bind_eq_ok made
  obtain ⟨write, wrote, whole⟩ := Execution.bind_eq_ok later
  obtain ⟨again, same, whole'⟩ := Execution.bind_eq_ok wrote
  rw [rendered] at same
  obtain rfl := Except.ok.inj same
  obtain rfl := Except.ok.inj whole'
  obtain rfl := Except.ok.inj whole
  exact ⟨rfl, rendered, rfl⟩

theorem map_path_planned (each : List.Forall₂ (PlanOf files root) entries plans) :
    plans.map Planned.path = entries.map BundleEntry.path := by
  induction each with
  | nil => rfl
  | cons first _ ih => rw [List.map_cons, List.map_cons, first.path, ih]

theorem held_of_identical {place : Option Path} {payload : Bytes} (same : actionAt files place payload = .identical) :
    ∃ target, place = some target ∧ FileTree.content? files target = some payload := by
  rw [actionAt.eq_def] at same
  split at same
  · cases same
  · next target =>
      split at same
      · cases same
      · split at same
        · next held => exact ⟨target, rfl, held⟩
        · cases same

theorem absent_of_create {target : Path} {payload : Bytes} (new : actionAt files (some target) payload = .create) :
    FileTree.isThere files target = false := by
  rw [actionAt] at new
  split at new
  · next absent => exact absent
  · split at new
    · cases new
    · cases new

theorem truthful_planned (ok : planned files root entries = .ok plans) : ∀ plan ∈ plans, Truthful root files plan := by
  intro plan member same
  obtain ⟨entry, _, made⟩ := Execution.exists_left_of_forall₂ (planOf_planned ok) member
  rw [made.action] at same
  rw [made.path]
  exact held_of_identical same

/-- No entry states the name under which another is staged. -/
def Unstaged (entries : List (BundleEntry python)) : Prop :=
  ∀ first ∈ entries, ∀ second ∈ entries, second.path ≠ stagingName first.path

/-- No entry states a directory of another's path. -/
def Unnested (entries : List (BundleEntry python)) : Prop :=
  ∀ first ∈ entries, ∀ second ∈ entries, splitParts first.path <+: splitParts second.path → first.path = second.path

def Aside (root : Path) (entries : List (BundleEntry python)) (place : Path) : Prop :=
  ∀ entry ∈ entries, ∀ target, target? root entry.path = some target → place ≠ target ∧ staging? target ≠ some place

def Holds (entry : BundleEntry python) (files : Files) (target : Path) : Prop :=
  ∃ payload, entry.renderedBytes = .ok payload ∧ FileTree.content? files target = some payload

/-- What an import leaves, whatever the file system refuses it: every file that is no entry's nor staged for
one, of an entry's path what it held or the entry's bytes, the whole tree where the import is refused before it
writes, and every entry's bytes where it returns. -/
structure LeavesWhole (root : Path) (files : Files) (entries : List (BundleEntry python))
    (outcome : Files × Except Raised ImportResult) : Prop where
  others : ∀ place, Aside root entries place → FileTree.content? outcome.1 place = FileTree.content? files place
  whole : ∀ entry ∈ entries, ∀ target, target? root entry.path = some target →
    Holds entry outcome.1 target ∨ FileTree.content? outcome.1 target = FileTree.content? files target
  unwritten : ∀ why, outcome.2 = .error why → (∀ path, why ≠ .failed path) → outcome.1 = files
  returned : ∀ result, outcome.2 = .ok result →
    ∀ entry ∈ entries, ∃ target, target? root entry.path = some target ∧ Holds entry outcome.1 target

/-- What an import comes to: it raises before it writes, or its loop ran. -/
theorem applyBundle_cases (entries : List (BundleEntry python)) (force : Bool) (faults : Str → Option Fault) :
    (∃ why, (∀ path, why ≠ .failed path) ∧ applyBundle files root entries force faults = (files, .error why)) ∨
      ∃ plans, planned files root entries = .ok plans ∧ (pathsOf .overwrite plans = [] ∨ force = true) ∧
        (applyBundle files root entries force faults).1 = (placeAll root faults files plans).1 ∧
        ((∃ path, (applyBundle files root entries force faults).2 = .error (.failed path)) ∨
          (placeAll root faults files plans).2 = none ∧
            ∃ result, (applyBundle files root entries force faults).2 = .ok result) := by
  rw [applyBundle]
  cases plan : planned files root entries with
  | error why => exact Or.inl ⟨.refused why, by simp, rfl⟩
  | ok plans =>
    dsimp only
    split
    · exact Or.inl ⟨.conflicts _, by simp, rfl⟩
    · next free =>
        right
        rw [not_and_or, not_not, Bool.not_eq_false] at free
        refine ⟨plans, rfl, free, ?_⟩
        rcases placed : placeAll root faults files plans with ⟨after, stopped⟩
        cases stopped with
        | none => exact ⟨rfl, Or.inr ⟨rfl, _, rfl⟩⟩
        | some path => exact ⟨rfl, Or.inl ⟨path, rfl⟩⟩

theorem applyBundle_stopped {force : Bool} {faults : Str → Option Fault} {after : Files} {path : Str}
    (ok : planned files root entries = .ok plans) (free : pathsOf .overwrite plans = [])
    (stopped : placeAll root faults files plans = (after, some path)) :
    applyBundle files root entries force faults = (after, .error (.failed path)) := by
  rw [applyBundle, ok]
  simp [free, stopped]

theorem apart_of_unstaged (distinct : (entries.map BundleEntry.path).Nodup) (unstaged : Unstaged entries) :
    Apart (entries.map BundleEntry.path) := by
  refine ⟨distinct, fun one listed other also => ?_⟩
  obtain ⟨first, member, rfl⟩ := List.mem_map.mp listed
  obtain ⟨second, later, rfl⟩ := List.mem_map.mp also
  exact unstaged first member second later

/-- What the loop leaves of an entry. -/
theorem left_planned (ok : planned files root entries = .ok plans) (apart : Apart (entries.map BundleEntry.path))
    {faults : Str → Option Fault} :
    ∀ entry ∈ entries, ∃ plan ∈ plans, PlanOf files root entry plan ∧
      Left root files plan (placeAll root faults files plans) := by
  intro entry member
  have each := planOf_planned ok
  obtain ⟨plan, listed, made⟩ := Execution.exists_right_of_forall₂ each member
  have paths : Apart (plans.map Planned.path) := by
    rw [map_path_planned each]
    exact apart
  exact ⟨plan, listed, made, left_placeAll paths (truthful_planned ok) plan listed⟩

theorem leavesWhole_applyBundle (apart : Apart (entries.map BundleEntry.path)) (force : Bool)
    (faults : Str → Option Fault) :
    LeavesWhole root files entries (applyBundle files root entries force faults) := by
  rcases @applyBundle_cases python files root entries force faults with
    ⟨why, before, same⟩ | ⟨plans, ok, _, tree, ended⟩
  · rw [same]
    exact ⟨fun _ _ => rfl, fun _ _ _ _ => Or.inr rfl, fun _ _ _ => rfl, fun _ returned => nomatch returned⟩
  · constructor
    · intro place aside
      rw [tree]
      apply content?_placeAll_other
      intro plan member target at_plan
      obtain ⟨entry, listed, named⟩ := path_of_planned ok member
      exact aside entry listed target (named ▸ at_plan)
    · intro entry member target place
      obtain ⟨plan, _, made, left⟩ := @left_planned _ _ _ _ _ ok apart faults entry member
      rw [tree]
      rcases left.whole target (made.path ▸ place) with placed | kept
      · exact Or.inl ⟨plan.payload, made.rendered, placed⟩
      · exact Or.inr kept
    · intro why raised before
      rcases ended with ⟨path, failed⟩ | ⟨_, result, returned⟩
      · rw [failed] at raised
        exact absurd (Except.error.inj raised).symm (before path)
      · rw [returned] at raised
        cases raised
    · intro result returned entry member
      obtain ⟨plan, _, made, left⟩ := @left_planned _ _ _ _ _ ok apart faults entry member
      rcases ended with ⟨path, failed⟩ | ⟨complete, _⟩
      · rw [failed] at returned
        cases returned
      · obtain ⟨target, place, held⟩ := left.complete complete
        refine ⟨target, made.path ▸ place, plan.payload, made.rendered, ?_⟩
        rw [tree]
        exact held

/-- An import raises a conflict where its plan overwrites, unless it is forced. -/
theorem conflicts_iff (entries : List (BundleEntry python)) (force : Bool) (faults : Str → Option Fault) :
    (∃ paths, (applyBundle files root entries force faults).2 = .error (.conflicts paths)) ↔
      ∃ plans, planned files root entries = .ok plans ∧ pathsOf .overwrite plans ≠ [] ∧ force = false := by
  rw [applyBundle]
  cases plan : planned files root entries with
  | error why => simp
  | ok plans =>
    dsimp only
    split
    · next conflict => exact ⟨fun _ => ⟨plans, rfl, conflict⟩, fun _ => ⟨_, rfl⟩⟩
    · next free =>
        constructor
        · rintro ⟨paths, raised⟩
          split at raised
          · cases Except.error.inj raised
          · cases raised
        · rintro ⟨others, same, conflict⟩
          obtain rfl := Except.ok.inj same
          exact absurd conflict free

/-- An entry that is no conflict is none when the loop has run. -/
theorem not_overwrite_again {entry : BundleEntry python} {plan : Planned} {after : Files × Option Str}
    (made : PlanOf files root entry plan) (fine : plan.action ≠ .overwrite) (left : Left root files plan after)
    (free : ∀ target, target? root entry.path = some target → files.get? target ≠ some .directory →
      after.1.get? target ≠ some .directory) :
    actionAt after.1 (target? root entry.path) plan.payload ≠ .overwrite := by
  rw [made.action] at fine
  cases place : target? root entry.path with
  | none => simp [actionAt]
  | some target =>
    rw [place] at fine
    have held : FileTree.content? after.1 target = some plan.payload →
        actionAt after.1 (some target) plan.payload ≠ .overwrite := by
      intro held
      rw [actionAt, if_pos held]
      split
      · simp
      · simp
    rcases left.whole target (made.path ▸ place) with placed | kept
    · exact held placed
    · cases action : actionAt files (some target) plan.payload with
      | overwrite => exact absurd action fine
      | identical =>
        obtain ⟨_, same, before⟩ := held_of_identical action
        obtain rfl := Option.some.inj same
        exact held (kept.trans before)
      | create =>
        have absent := absent_of_create action
        rw [FileTree.isThere, Bool.or_eq_false_iff, Option.isSome_eq_false_iff, Option.isNone_iff_eq_none] at absent
        have open_ : after.1.get? target ≠ some .directory := free target place (by simp [absent.2])
        have nothing : after.1.get? target = none := by
          have content := kept
          rw [FileTree.content?, FileTree.content?, absent.2, Option.bind_none] at content
          rcases stands : after.1.get? target with _ | ⟨text⟩ | _
          · rfl
          · rw [stands] at content
            cases content
          · exact absurd stands open_
        have still : FileTree.isThere after.1 target = false := by
          rw [FileTree.isThere, nothing, absent.1]
          rfl
        rw [actionAt, if_pos still]
        simp

/-- Running an import again raises no conflict over what the first run placed. -/
theorem no_conflict_again (apart : Apart (entries.map BundleEntry.path)) (unnested : Unnested entries) {force : Bool}
    {faults again : Str → Option Fault}
    (first : ¬ ∃ paths, (applyBundle files root entries force faults).2 = .error (.conflicts paths)) :
    ¬ ∃ paths, (applyBundle (applyBundle files root entries force faults).1 root entries force again).2 =
      .error (.conflicts paths) := by
  rw [conflicts_iff]
  rintro ⟨plans, ok, conflict, unforced⟩
  rcases @applyBundle_cases python files root entries force faults with
    ⟨why, before, same⟩ | ⟨earlier, ran, free, tree, _⟩
  · rw [same] at ok
    exact first ((conflicts_iff entries force faults).mpr ⟨plans, ok, conflict, unforced⟩)
  · rw [tree] at ok
    obtain ⟨path, stated⟩ := List.exists_mem_of_ne_nil _ conflict
    obtain ⟨plan, kept, _⟩ := List.mem_map.mp stated
    obtain ⟨listed, overwrites⟩ := List.mem_filter.mp kept
    obtain ⟨entry, member, made⟩ := Execution.exists_left_of_forall₂ (planOf_planned ok) listed
    obtain ⟨old, among, was, left⟩ := @left_planned _ _ _ _ _ ran apart faults entry member
    have fine : old.action ≠ .overwrite := by
      intro overwrote
      have nothing := free.resolve_right (by simp [unforced])
      have written : old.path ∈ pathsOf .overwrite earlier :=
        List.mem_map_of_mem (List.mem_filter.mpr ⟨among, by simpa using overwrote⟩)
      rw [nothing] at written
      cases written
    have payload : old.payload = plan.payload := by
      have rendered := was.rendered
      rw [made.rendered] at rendered
      exact (Except.ok.inj rendered).symm
    have action := not_overwrite_again was fine left fun target place outside => by
      refine not_directory_placeAll (fun plan among path at_plan above => ?_) outside
      obtain ⟨other, also, named⟩ := path_of_planned ran among
      rw [named] at at_plan
      have inside := above.trans (List.dropLast_prefix path)
      have same := unnested entry member other also (splitParts_nested place at_plan inside)
      rw [same, at_plan] at place
      obtain rfl := Option.some.inj place
      obtain ⟨relative, some_part, _, whole⟩ := exists_of_target? at_plan
      have shorter := above.length_le
      have long : 0 < path.length := by
        rw [whole, List.length_append]
        have := List.length_pos_of_ne_nil some_part
        omega
      rw [List.length_dropLast] at shorter
      omega
    rw [payload, ← made.action] at action
    exact action (by simpa using overwrites)

/-- An import of accepted entries leaves of each path what it held or the entry's bytes, whatever the file system
refuses, and running it again raises no conflict over what it placed. -/
theorem import_places_whole_files {document : python.Json} (accepted : readBundle python document = .ok read)
    (chosen : entries.Sublist read) (unstaged : Unstaged entries) (files : Files) (root : Path) (force : Bool)
    (faults : Str → Option Fault) :
    LeavesWhole root files entries (applyBundle files root entries force faults) ∧
      (Unnested entries →
        (¬ ∃ paths, (applyBundle files root entries force faults).2 = .error (.conflicts paths)) →
        ∀ again, ¬ ∃ paths, (applyBundle (applyBundle files root entries force faults).1 root entries force again).2 =
          .error (.conflicts paths)) := by
  obtain ⟨members, listed, _, _, made⟩ := files_of_readBundle accepted
  have distinct := (nodup_paths made).1.sublist (chosen.map BundleEntry.path)
  have apart := apart_of_unstaged distinct unstaged
  exact ⟨leavesWhole_applyBundle apart force faults, fun unnested first again => no_conflict_again apart unnested first⟩

end Import

/-! ## An import that is not taken back -/

section Example

def textEntry (python : Python) (path : Str) (text : String) : BundleEntry python where
  path
  role := .configSource
  kind := .text
  content := .string (str text)
  sha256 := python.sha256 (utf8 text)
  layout := none
  verbatim := none

def textBundle (python : Python) (entries : List (BundleEntry python)) : python.Json :=
  .object [(str "bundle_format", .string (str bundleFormat)), (str "schema_version", .int schemaVersion),
    (str "files", .object (entries.map fun entry => (entry.path, entry.toJson)))]

theorem renderedBytes_textEntry (python : Python) (path : Str) (text : String) :
    (textEntry python path text).renderedBytes = .ok (utf8 text) := by
  simp [BundleEntry.renderedBytes, textEntry, encode]

theorem readFile_textEntry (python : Python) {seen : List Str} {raw path : Str} (text : String)
    (accepted : safeRelative raw = .ok path) (fresh : path ∉ seen) :
    readFile python seen raw (textEntry python path text).toJson = .ok (textEntry python path text) := by
  have read : readMember python path (textEntry python path text).members = .ok (textEntry python path text) :=
    readMember_members rfl rfl (renderedBytes_textEntry python path text) rfl
  rw [readFile, accepted]
  change (if path ∈ seen then _ else _) = _
  rw [if_neg fresh]
  exact read

def pair (python : Python) : List (BundleEntry python) :=
  [textEntry python (str "a") "new", textEntry python (str "b") "new"]

theorem readBundle_pair (python : Python) : readBundle python (textBundle python (pair python)) = .ok (pair python) := by
  have accepted : ∀ path ∈ [str "a", str "b"], safeRelative path = .ok path := by
    intro path member
    rw [List.mem_cons, List.mem_singleton] at member
    rcases member with rfl | rfl
    · exact safeRelative_eq_ok.mpr (by decide +kernel)
    · exact safeRelative_eq_ok.mpr (by decide +kernel)
  change readFiles python [] [(str "a", (textEntry python (str "a") "new").toJson),
    (str "b", (textEntry python (str "b") "new").toJson)] = _
  rw [readFiles, readFile_textEntry python "new" (accepted _ (by simp)) (by simp)]
  change (readFiles python [str "a"] _).bind _ = _
  rw [readFiles, readFile_textEntry python "new" (accepted _ (by simp)) (by decide)]
  rfl

def pairPlans : List Planned := [⟨str "a", .create, utf8 "new"⟩, ⟨str "b", .create, utf8 "new"⟩]

theorem planned_pair (python : Python) : planned Dict.empty [] (pair python) = .ok pairPlans := by
  have plan : ∀ path ∈ [str "a", str "b"], planEntry Dict.empty [] (textEntry python path "new") =
      .ok ⟨path, .configSource, .create, (utf8 "new").length⟩ := by
    intro path member
    have action : actionAt Dict.empty (target? [] path) (utf8 "new") = .create := by
      rw [List.mem_cons, List.mem_singleton] at member
      rcases member with rfl | rfl
      · decide +kernel
      · decide +kernel
    rw [planEntry, renderedBytes_textEntry]
    change Except.ok (PlannedWrite.mk path .configSource (actionAt Dict.empty (target? [] path) (utf8 "new")) _) = _
    rw [action]
  rw [pair, planned, List.mapM_cons, List.mapM_cons, renderedBytes_textEntry, renderedBytes_textEntry,
    plan _ (by simp), plan _ (by simp)]
  rfl

/-- Every entry's path holds its bytes and no other file is changed, or the import raises and leaves every file. -/
def AllOrNothing {python : Python} (root : Path) (files : Files) (entries : List (BundleEntry python))
    (outcome : Files × Except Raised ImportResult) : Prop :=
  ((∃ result, outcome.2 = .ok result) ∧
      (∀ entry ∈ entries, ∃ target, target? root entry.path = some target ∧ Holds entry outcome.1 target) ∧
      ∀ place, (∀ entry ∈ entries, target? root entry.path ≠ some place) →
        FileTree.content? outcome.1 place = FileTree.content? files place) ∨
    (∃ why, outcome.2 = .error why) ∧ ∀ place, FileTree.content? outcome.1 place = FileTree.content? files place

/-- The file system refuses the second of the two entries. -/
def secondRefused (path : Str) : Option Fault := if path = str "b" then some (.write none) else none

/-- An import whose second file cannot be written raises, and has written the first. -/
theorem import_not_all_or_nothing : ¬ ∃ python : Python, ∀ document entries,
    readBundle python document = .ok entries → ∀ files root force faults,
      AllOrNothing root files entries (applyBundle files root entries force faults) := by
  rintro ⟨python, all⟩
  have outcome := all _ _ (readBundle_pair python) Dict.empty [] false secondRefused
  have stopped : (placeAll [] secondRefused Dict.empty pairPlans).2 = some (str "b") := by decide +kernel
  have written : (target? [] (str "a")).bind (FileTree.content? (placeAll [] secondRefused Dict.empty pairPlans).1) =
      some (utf8 "new") := by decide +kernel
  rw [applyBundle_stopped (planned_pair python) rfl (Prod.ext rfl stopped)] at outcome
  rcases outcome with ⟨⟨_, returned⟩, _⟩ | ⟨_, kept⟩
  · cases returned
  · obtain ⟨target, place, held⟩ := Option.bind_eq_some_iff.mp written
    rw [kept target] at held
    cases held

/-- The digests of a few texts. -/
def digests : List (String × String) :=
  [("new", "11507a0e2f5e69d5dfa40a62a1bd7b6ee57e6bcd85c67c9b8431b36fff21c437"),
    ("\x7b\n                 \"a\": true\n\x7d\n", "438d93333edcb21554db5543edd8d59e556ea68b9855577795d80f6c8a623181"),
    ("\x7b\"config_sources\": []\x7d", "c3ba244e0908f326e272e1b8c700dbdcda636d96f09f6c627d5698ceb1b459c4")]

/-- An interpreter with no floating-point numbers that digests these texts only. -/
def plainPython : Python where
  floats :=
    { Value := Empty
      number := fun value => value.elim
      nearest := fun _ => none
      repr := fun value => value.elim
      repr_read := fun value => value.elim
      nearest_repr := fun value => value.elim }
  sha256 := fun raw =>
    match digests.find? fun digest => utf8 digest.1 = raw with
    | some digest => str digest.2
    | none => List.replicate 64 (.char '0')
  describe := fun _ => []
  sha256_length := by
    intro raw
    have long : ∀ digest ∈ digests, (str digest.2).length = 64 := by decide
    split
    · next digest found => exact long digest (List.mem_of_find?_eq_some found)
    · exact List.length_replicate

theorem import_places_whole_files_pair :
    readBundle plainPython (textBundle plainPython (pair plainPython)) = .ok (pair plainPython) ∧
      LeavesWhole [] Dict.empty (pair plainPython) (applyBundle Dict.empty [] (pair plainPython) false secondRefused) :=
  ⟨readBundle_pair plainPython,
    (import_places_whole_files (readBundle_pair plainPython) (List.Sublist.refl _)
      (show ∀ first ∈ pair plainPython, ∀ second ∈ pair plainPython, second.path ≠ stagingName first.path by
        decide +kernel) Dict.empty [] false secondRefused).1⟩

end Example

end DbaBrain.Lib.ConfigBundle
