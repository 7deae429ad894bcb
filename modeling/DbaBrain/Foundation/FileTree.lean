import DbaBrain.Foundation.Dict

/-!
# Trees of files

Files and directories by path, with the calls that change them: directories are
made down a path, a file is written where no directory stands, and a file is
moved over another.  Each call says which contents it changes.
-/

namespace DbaBrain.Foundation.FileTree

inductive Node (β : Type)
  | file (content : β)
  | directory

def Node.content? {β : Type} : Node β → Option β
  | .file content => some content
  | .directory => none

/-- What stands at each path; the root directory itself is not listed. -/
abbrev Tree (ν β : Type) := Dict (List ν) (Node β)

variable {ν β : Type} [DecidableEq ν]

def content? (tree : Tree ν β) (path : List ν) : Option β := (tree.get? path).bind Node.content?

def isFile (tree : Tree ν β) (path : List ν) : Bool := (content? tree path).isSome

def isDirectory (tree : Tree ν β) (path : List ν) : Bool :=
  match tree.get? path with
  | some .directory => true
  | some (.file _) => false
  | none => path = []

def isThere (tree : Tree ν β) (path : List ν) : Bool := path = [] || (tree.get? path).isSome

/-- The paths from the root down to this one at which nothing stands. -/
def missing (tree : Tree ν β) (path : List ν) : List (List ν) := path.inits.filter fun part => !isThere tree part

def makeAll (tree : Tree ν β) (paths : List (List ν)) : Tree ν β :=
  paths.foldl (fun tree path => tree.set path .directory) tree

/-- A file stands on the way to the path, or at it. -/
def blocked (tree : Tree ν β) (path : List ν) : Bool := path.inits.any fun part => isFile tree part

/-- The directories down to the path, the first so many of those that are missing. -/
def makeFirst (tree : Tree ν β) (path : List ν) (count : Nat) : Tree ν β :=
  if blocked tree path then tree else makeAll tree ((missing tree path).take count)

/-- `path.mkdir(parents=True, exist_ok=True)`: refused where a file stands on the way. -/
def makeDirectories (tree : Tree ν β) (path : List ν) : Option (Tree ν β) :=
  if blocked tree path then none else some (makeAll tree (missing tree path))

/-- `path.write_bytes(content)`. -/
def writeFile (tree : Tree ν β) (path : List ν) (content : β) : Option (Tree ν β) :=
  if isDirectory tree path = false ∧ isDirectory tree path.dropLast = true then some (tree.set path (.file content))
  else none

/-- `source.replace(target)`. -/
def moveFile (tree : Tree ν β) (source target : List ν) : Option (Tree ν β) :=
  match content? tree source with
  | none => none
  | some content =>
      if isDirectory tree target = false ∧ isDirectory tree target.dropLast = true then
        some ((tree.restrict fun path => path ≠ source).set target (.file content))
      else none

/-- The files at the paths that are kept, in the order the tree lists them. -/
def filesWhere (keep : List ν → Bool) (tree : Tree ν β) : List (List ν × β) :=
  tree.entries.filterMap fun entry => if keep entry.1 then entry.2.content?.map (Prod.mk entry.1) else none

omit [DecidableEq ν] in
theorem keys_filesWhere_sublist (keep : List ν → Bool) (entries : List (List ν × Node β)) :
    ((entries.filterMap fun entry => if keep entry.1 then entry.2.content?.map (Prod.mk entry.1) else none).map
      Prod.fst).Sublist (entries.map Prod.fst) := by
  induction entries with
  | nil => exact List.Sublist.slnil
  | cons entry rest ih =>
    obtain ⟨path, node⟩ := entry
    rw [List.filterMap_cons, List.map_cons]
    cases found : (if keep path then node.content?.map (Prod.mk path) else none) with
    | none => exact ih.cons path
    | some pair =>
      have same : pair.1 = path := by
        split at found
        · obtain ⟨content, _, rfl⟩ := Option.map_eq_some_iff.mp found
          rfl
        · simp at found
      rw [List.map_cons, same]
      exact ih.cons_cons path

omit [DecidableEq ν] in
theorem nodup_filesWhere (keep : List ν → Bool) (tree : Tree ν β) : ((filesWhere keep tree).map Prod.fst).Nodup :=
  tree.nodup.sublist (keys_filesWhere_sublist keep tree.entries)

theorem mem_filesWhere {keep : List ν → Bool} {tree : Tree ν β} {path : List ν} {content : β} :
    (path, content) ∈ filesWhere keep tree ↔ keep path = true ∧ content? tree path = some content := by
  rw [filesWhere, List.mem_filterMap, content?, Option.bind_eq_some_iff]
  constructor
  · rintro ⟨⟨other, node⟩, member, found⟩
    split at found
    · next kept =>
        obtain ⟨held, file, same⟩ := Option.map_eq_some_iff.mp found
        obtain ⟨rfl, rfl⟩ := Prod.mk.inj same
        exact ⟨kept, node, Dict.get?_eq_some_iff.mpr member, file⟩
    · simp at found
  · rintro ⟨kept, node, found, file⟩
    refine ⟨(path, node), Dict.get?_eq_some_iff.mp found, ?_⟩
    rw [if_pos kept, file]
    rfl

section Calls

variable {tree after : Tree ν β} {path source target : List ν} {content : β}

theorem eq_of_makeDirectories (made : makeDirectories tree path = some after) :
    after = makeAll tree (missing tree path) := by
  rw [makeDirectories] at made
  split at made
  · simp at made
  · exact (Option.some.inj made).symm

theorem eq_of_writeFile (written : writeFile tree path content = some after) : after = tree.set path (.file content) := by
  rw [writeFile] at written
  split at written
  · exact (Option.some.inj written).symm
  · simp at written

theorem eq_of_moveFile (moved : moveFile tree source target = some after) :
    ∃ content, after = ((tree.restrict fun path => path ≠ source) : Tree ν β).set target (.file content) := by
  rw [moveFile] at moved
  split at moved
  · simp at moved
  · next content _ =>
      split at moved
      · exact ⟨content, (Option.some.inj moved).symm⟩
      · simp at moved

theorem prefix_of_mem_missing {part : List ν} (member : part ∈ missing tree path) : part <+: path :=
  (List.mem_inits _ _).mp (List.mem_of_mem_filter member)

/-- What making one directory keeps, making several does. -/
theorem makeAll_invariant {kept : Tree ν β → Prop} {paths : List (List ν)}
    (made : ∀ tree, ∀ part ∈ paths, kept tree → kept (tree.set part .directory)) (before : kept tree) :
    kept (makeAll tree paths) := by
  induction paths generalizing tree with
  | nil => exact before
  | cons first rest ih =>
    exact ih (fun tree part member => made tree part (List.mem_cons_of_mem first member))
      (made tree first List.mem_cons_self before)

end Calls

section Contents

variable {tree after : Tree ν β} {path source target other : List ν} {content : β}

theorem content?_set (node : Node β) : content? (tree.set path node) other =
    if other = path then node.content? else content? tree other := by
  rw [content?, Dict.get?_set]
  by_cases here : other = path
  · rw [if_pos here, if_pos here, Option.bind_some]
  · rw [if_neg here, if_neg here, content?]

/-- Making directories where no file stands changes no file. -/
theorem content?_makeAll {paths : List (List ν)} (free : ∀ path ∈ paths, content? tree path = none) :
    content? (makeAll tree paths) other = content? tree other := by
  induction paths generalizing tree with
  | nil => rfl
  | cons first rest ih =>
    have same : ∀ path, content? (tree.set first .directory) path = content? tree path := by
      intro path
      rw [content?_set]
      by_cases here : path = first
      · rw [if_pos here, here, free first List.mem_cons_self]
        rfl
      · rw [if_neg here]
    have later := @ih (tree.set first .directory) fun path member => by
      rw [same]
      exact free path (List.mem_cons_of_mem first member)
    exact later.trans (same other)

theorem content?_of_absent (absent : isThere tree path = false) : content? tree path = none := by
  rw [isThere, Bool.or_eq_false_iff] at absent
  have empty : tree.get? path = none := by simpa using absent.2
  rw [content?, empty, Option.bind_none]

theorem content?_missing (count : Nat) :
    content? (makeAll tree ((missing tree path).take count)) other = content? tree other := by
  apply content?_makeAll
  intro part member
  have absent := (List.mem_filter.mp (List.mem_of_mem_take member)).2
  exact content?_of_absent (by simpa using absent)

theorem content?_makeFirst (count : Nat) : content? (makeFirst tree path count) other = content? tree other := by
  rw [makeFirst]
  split
  · rfl
  · exact content?_missing count

theorem content?_makeDirectories (made : makeDirectories tree path = some after) :
    content? after other = content? tree other := by
  rw [eq_of_makeDirectories made]
  have whole := @content?_missing _ _ _ tree path other (missing tree path).length
  rwa [List.take_length] at whole

theorem content?_writeFile (written : writeFile tree path content = some after) :
    content? after other = if other = path then some content else content? tree other := by
  rw [eq_of_writeFile written]
  exact content?_set (.file content)

theorem content?_moveFile (held : content? tree source = some content)
    (moved : moveFile tree source target = some after) :
    content? after other =
      if other = target then some content else if other = source then none else content? tree other := by
  rw [moveFile, held] at moved
  dsimp only at moved
  split at moved
  · obtain rfl := Option.some.inj moved
    rw [content?_set, content?, Dict.get?_restrict]
    by_cases gone : other = source
    · rw [if_neg (show ¬ decide (other ≠ source) = true by simpa using gone), if_pos gone]
      rfl
    · rw [if_pos (show decide (other ≠ source) = true by simpa using gone), if_neg gone]
      rfl
  · simp at moved

end Contents

/-! ## Trees that differ in one file -/

/-- Two trees are the same but for what a file holds. -/
structure SameBut (path : List ν) (first second : Tree ν β) : Prop where
  others : ∀ other, other ≠ path → first.get? other = second.get? other
  held : isFile first path = true
  present : isFile second path = true

namespace SameBut

variable {first second : Tree ν β} {path other : List ν}

theorem content? (same : SameBut path first second) (apart : other ≠ path) :
    content? first other = content? second other := by
  rw [FileTree.content?, same.others other apart, FileTree.content?]

theorem isFile (same : SameBut path first second) (other : List ν) : isFile first other = isFile second other := by
  by_cases here : other = path
  · rw [here, same.held, same.present]
  · rw [FileTree.isFile, same.content? here, FileTree.isFile]

theorem isSome_get? {tree : Tree ν β} (file : FileTree.isFile tree path = true) :
    ∃ content, tree.get? path = some (.file content) := by
  rw [FileTree.isFile, FileTree.content?] at file
  rcases stands : tree.get? path with _ | ⟨content⟩ | _
  · rw [stands] at file
    cases file
  · exact ⟨content, rfl⟩
  · rw [stands] at file
    cases file

theorem isThere (same : SameBut path first second) (other : List ν) : isThere first other = isThere second other := by
  by_cases here : other = path
  · obtain ⟨one, held⟩ := isSome_get? same.held
    obtain ⟨two, present⟩ := isSome_get? same.present
    rw [here, FileTree.isThere, FileTree.isThere, held, present]
    rfl
  · rw [FileTree.isThere, FileTree.isThere, same.others other here]

theorem isDirectory (same : SameBut path first second) (other : List ν) :
    isDirectory first other = isDirectory second other := by
  by_cases here : other = path
  · obtain ⟨one, held⟩ := isSome_get? same.held
    obtain ⟨two, present⟩ := isSome_get? same.present
    rw [here, FileTree.isDirectory, FileTree.isDirectory, held, present]
  · rw [FileTree.isDirectory, FileTree.isDirectory, same.others other here]

theorem blocked (same : SameBut path first second) (other : List ν) : blocked first other = blocked second other := by
  simp only [FileTree.blocked, same.isFile]

theorem missing (same : SameBut path first second) (other : List ν) : missing first other = missing second other := by
  simp only [FileTree.missing, same.isThere]

/-- Setting another path keeps two such trees the same. -/
theorem set (same : SameBut path first second) (apart : other ≠ path) (node : Node β) :
    SameBut path (first.set other node) (second.set other node) := by
  refine ⟨fun place differs => ?_, ?_, ?_⟩
  · rw [Dict.get?_set, Dict.get?_set, same.others place differs]
  · rw [FileTree.isFile, content?_set, if_neg apart.symm]
    exact same.held
  · rw [FileTree.isFile, content?_set, if_neg apart.symm]
    exact same.present

variable {keep : List ν → Bool}

theorem restrict (same : SameBut path first second) (kept : keep path = true) :
    SameBut path (first.restrict keep) (second.restrict keep) := by
  have file : ∀ tree : Tree ν β, FileTree.isFile tree path = true → FileTree.isFile (tree.restrict keep) path = true := by
    intro tree held
    rw [FileTree.isFile, FileTree.content?, Dict.get?_restrict, if_pos kept]
    exact held
  refine ⟨fun place differs => ?_, file first same.held, file second same.present⟩
  rw [Dict.get?_restrict, Dict.get?_restrict, same.others place differs]

theorem makeAll (same : SameBut path first second) {paths : List (List ν)} (apart : path ∉ paths) :
    SameBut path (makeAll first paths) (makeAll second paths) := by
  induction paths generalizing first second with
  | nil => exact same
  | cons place rest ih =>
    rw [List.mem_cons, not_or] at apart
    exact ih (same.set (Ne.symm apart.1) .directory) apart.2

theorem notMem_missing (same : SameBut path first second) (place : List ν) : path ∉ FileTree.missing first place := by
  intro member
  have absent : FileTree.isThere first path = false := by simpa using (List.mem_filter.mp member).2
  have file := same.held
  rw [FileTree.isFile, content?_of_absent absent] at file
  cases file

theorem makeFirst (same : SameBut path first second) (place : List ν) (count : Nat) :
    SameBut path (makeFirst first place count) (makeFirst second place count) := by
  rw [FileTree.makeFirst, FileTree.makeFirst, same.blocked, same.missing]
  split
  · exact same
  · exact same.makeAll fun member => same.notMem_missing place (same.missing place ▸ List.mem_of_mem_take member)

theorem filesWhere_perm (same : SameBut path first second) (dropped : keep path = false) :
    (filesWhere keep first).Perm (filesWhere keep second) := by
  apply (List.perm_ext_iff_of_nodup (nodup_filesWhere keep first).of_map (nodup_filesWhere keep second).of_map).mpr
  rintro ⟨place, content⟩
  rw [mem_filesWhere, mem_filesWhere]
  refine and_congr_right fun kept => ?_
  rw [same.content?]
  rintro rfl
  rw [kept] at dropped
  cases dropped

end SameBut

/-- Two results of a call on two such trees: both refused, or again such trees. -/
def SameResult (path : List ν) : Option (Tree ν β) → Option (Tree ν β) → Prop
  | none, none => True
  | some first, some second => SameBut path first second
  | _, _ => False

namespace SameBut

variable {first second : Tree ν β} {path place source target : List ν}

theorem makeDirectories (same : SameBut path first second) (place : List ν) :
    SameResult path (makeDirectories first place) (makeDirectories second place) := by
  rw [FileTree.makeDirectories, FileTree.makeDirectories, same.blocked, same.missing]
  split
  · trivial
  · exact same.makeAll fun member => same.notMem_missing place (same.missing place ▸ member)

theorem writeFile (same : SameBut path first second) (apart : place ≠ path) (content : β) :
    SameResult path (writeFile first place content) (writeFile second place content) := by
  rw [FileTree.writeFile, FileTree.writeFile, same.isDirectory, same.isDirectory]
  split
  · exact same.set apart (.file content)
  · trivial

theorem moveFile (same : SameBut path first second) (own : source ≠ path) (apart : target ≠ path) :
    SameResult path (moveFile first source target) (moveFile second source target) := by
  rw [FileTree.moveFile, FileTree.moveFile, same.content? own, same.isDirectory, same.isDirectory]
  cases FileTree.content? second source with
  | none => trivial
  | some content =>
    dsimp only
    split
    · exact (same.restrict (by simpa using own.symm)).set apart (.file content)
    · trivial

end SameBut

end DbaBrain.Foundation.FileTree
