import DbaBrain.BackupRestore.RepositoryPaths
import DbaBrain.Db.JobRuns

/-!
# The folder of the repository that holds a folder's copies

`repository_source` reads, off every copy it is given, how far its path on the
server and its path on the repository end alike, and translates the folder asked
through what stands before.  A copy need not lie under that folder to be read so:
one of a folder beside it has a say as soon as its own root is above both.  The
copies of the folder itself always name one place where they lie in one.
-/

namespace DbaBrain.BackupRestore.RepositorySource

open DbaBrain.Foundation DbaBrain.Foundation.Selection DbaBrain.Foundation.Text
open DbaBrain.BackupRestore.Offload

/-- A verified copy: where its file is on the server, and where the copy is. -/
structure Location where
  offloadServerId : String
  hostPath : String
  filePath : String
  offloadPath : String

/-! ## Paths in parts -/

def parts (path : List Char) : List (List Char) := path.splitOn '/'

def joined (parts : List (List Char)) : List Char := ['/'].intercalate parts

/-- `rstrip("/")`. -/
def trimmed (path : List Char) : List Char := path.rdropWhile fun c => c = '/'

/-- How many parts two paths, read from their ends, have alike, where one part of each is left. -/
def alike : List (List Char) → List (List Char) → Nat
  | first :: next :: rest, other :: after :: others =>
      if first = other then alike (next :: rest) (after :: others) + 1 else 0
  | _, _ => 0

def Location.serverPath (location : Location) : List Char :=
  (replaceChar '\\' '/' (if location.hostPath = "" then location.filePath else location.hostPath)).toList

/-- The root is the folder, or the folder lies under it. -/
abbrev AtOrAbove (root want : List Char) : Prop := want = root ∨ root ++ ['/'] <+: want

/-- Where a copy puts the folder asked: the part of the path before what ends alike is one folder on both sides. -/
def mapped (want : List Char) (location : Location) : Option (String × String) :=
  let serverSide := parts location.serverPath
  let repoSide := parts location.offloadPath.toList
  let common := alike serverSide.reverse repoSide.reverse
  if common = 0 then none
  else
    let serverRoot := trimmed (joined (serverSide.take (serverSide.length - common)))
    let repoRoot := trimmed (joined (repoSide.take (repoSide.length - common)))
    if AtOrAbove serverRoot want then
      some (location.offloadServerId, String.ofList (repoRoot ++ want.drop serverRoot.length))
    else none

def wanted (hostDir : String) : List Char := (norm hostDir).toList

def noCopies (hostDir : String) : String :=
  "no verified repository copy of " ++ hostDir ++ " - offload the backups first, or state restore_from: server."

def noneUnder (hostDir : String) : String :=
  "no verified repository copy lies under " ++ hostDir ++ " - the copies are of another folder of this server."

def scattered (hostDir : String) (found : List (String × String)) : String :=
  "the copies of " ++ hostDir ++ " are in " ++ toString found.length ++ " places (" ++
    ", ".intercalate (sortedBy id (found.map fun place => place.1 ++ ":" ++ place.2)) ++ ") - one restore reads one."

def repositorySource (locations : List Location) (hostDir : String) : Except String (String × String) :=
  if locations = [] then .error (noCopies hostDir)
  else
    match (locations.filterMap (mapped (wanted hostDir))).dedup with
    | [] => .error (noneUnder hostDir)
    | [place] => .ok place
    | found => .error (scattered hostDir found)

/-! ## What the store hands over -/

/-- A row of `backup_files`, as far as the question for its copy reads it. -/
structure CopyRow where
  fileId : Int
  serverId : String
  verified : Bool
  offloadServerId : String
  hostPath : String
  filePath : String
  offloadPath : Option String
  provenAt : String

/-- `text LIKE pattern`, with `%` for any text. -/
def like : List Char → List Char → Bool
  | [], text => text.isEmpty
  | c :: pattern, text =>
      if c = '%' then text.tails.any (like pattern)
      else
        match text with
        | [] => false
        | d :: rest => Db.JobRuns.likeChar c d && like pattern rest

/-- Later proofs first, and later rows of one proof's moment. -/
def newerFirst (first second : CopyRow) : Prop :=
  second.provenAt < first.provenAt ∨ first.provenAt = second.provenAt ∧ second.fileId ≤ first.fileId

instance (first second : CopyRow) : Decidable (newerFirst first second) := inferInstanceAs (Decidable (_ ∨ _))

def CopyRow.location (row : CopyRow) : Option Location :=
  row.offloadPath.map fun path => ⟨row.offloadServerId, row.hostPath, row.filePath, path⟩

def repositoryLocations (rows : List CopyRow) (serverId under : String) (limit : Nat) : List Location :=
  let start := norm under
  let asked := rows.filter fun row =>
    row.serverId = serverId && row.verified && row.offloadPath.isSome &&
      (start = "" || like (start ++ "/%").toList
        (replaceChar '\\' '/' (if row.hostPath = "" then row.filePath else row.hostPath)).toList)
  ((asked.insertionSort newerFirst).take limit).filterMap CopyRow.location

/-! ## The end two paths share -/

variable {first second front back shared : List (List Char)} {want : List Char} {location : Location}
  {place : String × String}

theorem alike_append (shared : List (List Char)) (some_part : first ≠ []) (also : second ≠ []) :
    alike (shared ++ first) (shared ++ second) = shared.length + alike first second := by
  induction shared with
  | nil => simp
  | cons part rest ih =>
    obtain ⟨next, others, front⟩ := List.exists_cons_of_ne_nil (List.append_ne_nil_of_right_ne_nil rest some_part)
    obtain ⟨after, more, back⟩ := List.exists_cons_of_ne_nil (List.append_ne_nil_of_right_ne_nil rest also)
    rw [List.cons_append, List.cons_append, front, back, alike, if_pos rfl, ← front, ← back, ih, List.length_cons]
    omega

/-- Nothing is alike where one part is left of a path, or the parts read first differ. -/
theorem alike_eq_zero_iff (some_part : first ≠ []) (also : second ≠ []) :
    alike first second = 0 ↔ first.length = 1 ∨ second.length = 1 ∨ first.head? ≠ second.head? := by
  obtain ⟨part, rest, rfl⟩ := List.exists_cons_of_ne_nil some_part
  obtain ⟨other, others, rfl⟩ := List.exists_cons_of_ne_nil also
  cases rest with
  | nil => simp [alike]
  | cons next rest =>
    cases others with
    | nil => simp [alike]
    | cons after others => simp [alike]

theorem alike_split (first second : List (List Char)) (some_part : first ≠ []) (also : second ≠ []) :
    ∃ shared front back, first = shared ++ front ∧ second = shared ++ back ∧ front ≠ [] ∧ back ≠ [] ∧
      alike front back = 0 ∧ alike first second = shared.length := by
  induction first generalizing second with
  | nil => exact absurd rfl some_part
  | cons part rest ih =>
    obtain ⟨other, others, rfl⟩ := List.exists_cons_of_ne_nil also
    by_cases none : alike (part :: rest) (other :: others) = 0
    · exact ⟨[], part :: rest, other :: others, rfl, rfl, some_part, also, none, none⟩
    · rw [alike_eq_zero_iff some_part also] at none
      simp only [List.length_cons, List.head?_cons, ne_eq, Option.some.injEq, not_or, not_not, Nat.add_eq_right,
        List.length_eq_zero_iff] at none
      obtain ⟨more, further, rfl⟩ := none
      obtain ⟨shared, front, back, firstSplit, secondSplit, left, right, stops, count⟩ := ih others more further
      refine ⟨part :: shared, front, back, by rw [firstSplit]; rfl, by rw [secondSplit]; rfl, left, right, stops, ?_⟩
      rw [← List.singleton_append, ← List.singleton_append (l := others), alike_append [part] more further, count]
      simp only [List.length_cons, List.length_nil]
      omega

theorem parts_ne_nil (path : List Char) : parts path ≠ [] := List.splitOn_ne_nil _ _

theorem parts_append (front back : List Char) : parts (front ++ '/' :: back) = parts front ++ parts back :=
  List.splitOn_append_cons_self front back

theorem joined_parts (path : List Char) : joined (parts path) = path := List.intercalate_splitOn _

/-- The folder a path's front is. -/
def root (front : List (List Char)) : List Char := trimmed (joined front)

/-- A copy names a place for the folder asked: its two paths end alike and differ before, or have one part left; what is
before on the server is at or above the folder, and the folder goes on from what is before on the repository. -/
def Names (want : List Char) (location : Location) (place : String × String) : Prop :=
  ∃ front back shared, parts location.serverPath = front ++ shared ∧ parts location.offloadPath.toList = back ++ shared ∧
    shared ≠ [] ∧ front ≠ [] ∧ back ≠ [] ∧
    (front.length = 1 ∨ back.length = 1 ∨ front.getLast? ≠ back.getLast?) ∧ AtOrAbove (root front) want ∧
    place = (location.offloadServerId, String.ofList (root back ++ want.drop (root front).length))

/-- The count of what two paths end with alike, from any splits that stop there. -/
theorem alike_of_split (firstSplit : first = front ++ shared) (secondSplit : second = back ++ shared)
    (some_part : front ≠ []) (also : back ≠ []) :
    alike first.reverse second.reverse = shared.length + alike front.reverse back.reverse := by
  rw [firstSplit, secondSplit, List.reverse_append, List.reverse_append,
    alike_append shared.reverse (by simpa using some_part) (by simpa using also), List.length_reverse]

theorem mapped_of_split (server : parts location.serverPath = front ++ shared)
    (repo : parts location.offloadPath.toList = back ++ shared) (some_part : front ≠ []) (also : back ≠ [])
    (shares : shared ≠ []) (stops : alike front.reverse back.reverse = 0) :
    mapped want location =
      if AtOrAbove (root front) want then
        some (location.offloadServerId, String.ofList (root back ++ want.drop (root front).length))
      else none := by
  have count := alike_of_split server repo some_part also
  rw [stops, Nat.add_zero] at count
  unfold mapped
  dsimp only
  rw [count, if_neg (by simpa using shares), server, repo]
  simp only [List.length_append, Nat.add_sub_cancel_right, List.take_left']
  rfl

theorem mapped_eq_some_iff : mapped want location = some place ↔ Names want location place := by
  constructor
  · intro answered
    obtain ⟨shared, front, back, server, repo, some_part, also, stops, count⟩ := alike_split
      (parts location.serverPath).reverse (parts location.offloadPath.toList).reverse (by simpa using parts_ne_nil _)
      (by simpa using parts_ne_nil _)
    rw [List.reverse_eq_iff, List.reverse_append] at server repo
    have shares : shared ≠ [] := by
      rintro rfl
      rw [mapped] at answered
      dsimp only at answered
      rw [count, if_pos List.length_nil] at answered
      cases answered
    rw [mapped_of_split server repo (by simpa using some_part) (by simpa using also) (by simpa using shares)
      (by simpa using stops)] at answered
    split at answered
    · rename_i above
      refine ⟨front.reverse, back.reverse, shared.reverse, server, repo, by simpa using shares, by simpa using some_part,
        by simpa using also, ?_, above, (Option.some.inj answered).symm⟩
      simpa using (alike_eq_zero_iff some_part also).mp stops
    · cases answered
  · rintro ⟨front, back, shared, server, repo, shares, some_part, also, stops, above, rfl⟩
    rw [mapped_of_split server repo some_part also shares, if_pos above]
    rw [alike_eq_zero_iff (by simpa using some_part) (by simpa using also)]
    simpa using stops

/-! ## Copies of the folder -/

/-- The file lies under the folder, at a path relative to it. -/
def Location.UnderAt (location : Location) (want relative : List Char) : Prop :=
  location.serverPath = want ++ '/' :: relative

def Location.isUnder (want : List Char) (location : Location) : Bool := (want ++ ['/']).isPrefixOf location.serverPath

theorem isUnder_iff : location.isUnder want = true ↔ ∃ relative, location.UnderAt want relative := by
  unfold Location.isUnder Location.UnderAt
  rw [List.isPrefixOf_iff_prefix]
  constructor
  · rintro ⟨relative, spelled⟩
    exact ⟨relative, by rw [← spelled, List.append_assoc]; rfl⟩
  · rintro ⟨relative, spelled⟩
    exact ⟨relative, by rw [spelled, List.append_assoc]; rfl⟩

def Location.CopiedAt (location : Location) (server : String) (folder relative : List Char) : Prop :=
  location.offloadServerId = server ∧ location.offloadPath.toList = folder ++ '/' :: relative

/-- One path but for slashes that are repeated in one place. -/
def SlashesApart (first second : List Char) : Prop :=
  ∃ front back few many, first = front ++ List.replicate few '/' ++ '/' :: back ∧
    second = front ++ List.replicate many '/' ++ '/' :: back

theorem trimmed_spec (path : List Char) : ∃ count, path = trimmed path ++ List.replicate count '/' := by
  have slashes : ∀ c ∈ path.rtakeWhile fun c => c = '/', c = '/' := by
    intro c member
    simpa using List.mem_rtakeWhile_imp member
  have whole : path = trimmed path ++ path.rtakeWhile fun c => c = '/' := by
    apply List.reverse_injective
    rw [trimmed, List.rdropWhile, List.rtakeWhile, ← List.reverse_append, List.reverse_reverse,
      List.takeWhile_append_dropWhile]
  rw [List.eq_replicate_of_mem slashes] at whole
  exact ⟨_, whole⟩

theorem joined_append (some_part : front ≠ []) (more : back ≠ []) :
    joined (front ++ back) = joined front ++ '/' :: joined back :=
  intercalate_append some_part more

/-- What a path goes on with behind a folder. -/
def onward (shared : List (List Char)) : List Char := if shared = [] then [] else '/' :: joined shared

theorem path_of_split {path : List Char} (split : parts path = front ++ shared) (some_part : front ≠ []) :
    ∃ count, path = root front ++ (List.replicate count '/' ++ onward shared) := by
  obtain ⟨count, spelled⟩ := trimmed_spec (joined front)
  refine ⟨count, ?_⟩
  rw [← joined_parts path, split, ← List.append_assoc, onward]
  by_cases ends : shared = []
  · rw [if_pos ends, ends, List.append_nil, List.append_nil]
    exact spelled
  · rw [if_neg ends, joined_append some_part ends]
    exact congrArg (· ++ '/' :: joined shared) spelled

theorem slashesApart_of_onward (front relative : List Char) (few many : Nat) (shared : List (List Char)) :
    SlashesApart (front ++ (List.replicate few '/' ++ onward shared) ++ '/' :: relative)
      (front ++ (List.replicate many '/' ++ onward shared) ++ '/' :: relative) := by
  by_cases ends : shared = []
  · refine ⟨front, relative, few, many, ?_, ?_⟩ <;> simp [onward, ends]
  · refine ⟨front, joined shared ++ '/' :: relative, few, many, ?_, ?_⟩ <;> simp [onward, ends]

theorem atOrAbove_of_split (trim : trimmed want = want) (split : parts want = front ++ shared) (some_part : front ≠ []) :
    AtOrAbove (root front) want := by
  by_cases ends : shared = []
  · refine Or.inl ?_
    rw [root, ← List.append_nil front, ← ends, ← split, joined_parts, trim]
  · obtain ⟨count, spelled⟩ := path_of_split split some_part
    refine Or.inr ?_
    rw [onward, if_neg ends] at spelled
    cases count with
    | zero => exact ⟨joined shared, by rw [spelled]; simp⟩
    | succ more => exact ⟨List.replicate more '/' ++ '/' :: joined shared, by rw [spelled]; simp [List.replicate_succ]⟩

/-- Where a copy of the folder lies at its file's relative path in a folder, the place it names is that folder. -/
theorem mapped_of_copiedAt (folder : List Char) (trim : trimmed want = want) :
    ∃ named, (∀ relative, SlashesApart (named ++ '/' :: relative) (folder ++ '/' :: relative)) ∧
      ∀ location : Location, ∀ server relative, location.UnderAt want relative →
        location.CopiedAt server folder relative → mapped want location = some (server, String.ofList named) := by
  obtain ⟨shared, front, back, asked, copies, some_part, also, stops, -⟩ := alike_split
    (parts want).reverse (parts folder).reverse (by simpa using parts_ne_nil _) (by simpa using parts_ne_nil _)
  rw [List.reverse_eq_iff, List.reverse_append] at asked copies
  have left : front.reverse ≠ [] := by simpa using some_part
  have right : back.reverse ≠ [] := by simpa using also
  refine ⟨root back.reverse ++ want.drop (root front.reverse).length, ?_, ?_⟩
  · intro relative
    obtain ⟨few, wantSplit⟩ := path_of_split asked left
    obtain ⟨many, folderSplit⟩ := path_of_split copies right
    have rest : want.drop (root front.reverse).length = List.replicate few '/' ++ onward shared.reverse := by
      conv_lhs => rw [wantSplit]
      exact List.drop_left
    rw [rest]
    conv_rhs => rw [folderSplit]
    exact slashesApart_of_onward _ relative few many _
  · rintro location server relative under ⟨rfl, copied⟩
    have serverParts : parts location.serverPath = front.reverse ++ (shared.reverse ++ parts relative) := by
      rw [under, parts_append, asked, List.append_assoc]
    have repoParts : parts location.offloadPath.toList = back.reverse ++ (shared.reverse ++ parts relative) := by
      rw [copied, parts_append, copies, List.append_assoc]
    rw [mapped_of_split serverParts repoParts left right
      (List.append_ne_nil_of_right_ne_nil _ (parts_ne_nil relative)) (by simpa using stops),
      if_pos (atOrAbove_of_split trim asked left)]

/-! ## The answer -/

variable {locations : List Location} {hostDir : String}

theorem toOption_repositorySource :
    (repositorySource locations hostDir).toOption =
      match (locations.filterMap (mapped (wanted hostDir))).dedup with
      | [place] => some place
      | _ => none := by
  unfold repositorySource
  by_cases empty : locations = []
  · rw [if_pos empty, empty]
    rfl
  · rw [if_neg empty]
    rcases (locations.filterMap (mapped (wanted hostDir))).dedup with _ | ⟨place, _ | ⟨other, rest⟩⟩ <;> rfl

/-- The answer is a place exactly where the copies name that place and no other. -/
theorem repositorySource_eq_some_iff :
    (repositorySource locations hostDir).toOption = some place ↔
      ∀ other, (∃ location ∈ locations, Names (wanted hostDir) location other) ↔ other = place := by
  have named (other : String × String) : (∃ location ∈ locations, Names (wanted hostDir) location other) ↔
      other ∈ (locations.filterMap (mapped (wanted hostDir))).dedup := by
    rw [List.mem_dedup, List.mem_filterMap]
    simp only [mapped_eq_some_iff]
  have once : (locations.filterMap (mapped (wanted hostDir))).dedup.Nodup := List.nodup_dedup _
  simp only [named]
  rw [toOption_repositorySource]
  generalize (locations.filterMap (mapped (wanted hostDir))).dedup = found at once
  constructor
  · intro answered other
    split at answered
    · cases answered
      exact List.mem_singleton
    · cases answered
  · intro alone
    have single : found = [place] := by
      refine List.perm_singleton.mp ((List.perm_ext_iff_of_nodup once (List.nodup_singleton place)).mpr ?_)
      intro other
      rw [alone other, List.mem_singleton]
    rw [single]

/-- A copy of a file under the folder names the place. -/
def NamedUnder (locations : List Location) (hostDir : String) (place : String × String) : Prop :=
  ∃ location ∈ locations, location.isUnder (wanted hostDir) = true ∧ Names (wanted hostDir) location place

/-- A copy of a file outside the folder names the place. -/
def NamedOutside (locations : List Location) (hostDir : String) (place : String × String) : Prop :=
  ∃ location ∈ locations, location.isUnder (wanted hostDir) = false ∧ Names (wanted hostDir) location place

def FindsOwnFolder (locations : List Location) (hostDir : String) : Prop :=
  ∀ server folder, (∃ location ∈ locations, location.isUnder (wanted hostDir) = true) →
    (∀ location ∈ locations, ∀ relative, location.UnderAt (wanted hostDir) relative →
      location.CopiedAt server folder relative) →
    ∃ named, (repositorySource locations hostDir).toOption = some (server, String.ofList named) ∧
      ∀ relative, SlashesApart (named ++ '/' :: relative) (folder ++ '/' :: relative)

/-- The copies outside the folder neither change the answer nor make it refuse. -/
def OwnCopiesDecide (locations : List Location) (hostDir : String) : Prop :=
  (repositorySource locations hostDir).toOption =
    (repositorySource (locations.filter (Location.isUnder (wanted hostDir))) hostDir).toOption

/-- The copies outside the folder name the one place those under it name or none, and where those under it name none
they do not name exactly one. -/
structure OutsideNamesNothingElse (locations : List Location) (hostDir : String) : Prop where
  one : ∀ place, (∀ other, NamedUnder locations hostDir other ↔ other = place) →
    ∀ other, NamedOutside locations hostDir other → other = place
  none : (∀ place, ¬ NamedUnder locations hostDir place) →
    ∀ place, ¬ ∀ other, NamedOutside locations hostDir other ↔ other = place

theorem filtered_eq_some_iff :
    (repositorySource (locations.filter (Location.isUnder (wanted hostDir))) hostDir).toOption = some place ↔
      ∀ other, NamedUnder locations hostDir other ↔ other = place := by
  rw [repositorySource_eq_some_iff]
  simp only [NamedUnder, List.mem_filter, and_assoc]

theorem all_eq_some_iff :
    (repositorySource locations hostDir).toOption = some place ↔
      ∀ other, NamedUnder locations hostDir other ∨ NamedOutside locations hostDir other ↔ other = place := by
  rw [repositorySource_eq_some_iff]
  refine forall_congr' fun other => iff_congr ?_ Iff.rfl
  unfold NamedUnder NamedOutside
  constructor
  · rintro ⟨location, member, names⟩
    cases under : location.isUnder (wanted hostDir) with
    | true => exact Or.inl ⟨location, member, under, names⟩
    | false => exact Or.inr ⟨location, member, under, names⟩
  · rintro (⟨location, member, -, names⟩ | ⟨location, member, -, names⟩)
    · exact ⟨location, member, names⟩
    · exact ⟨location, member, names⟩

theorem ownCopiesDecide_iff : OwnCopiesDecide locations hostDir ↔ OutsideNamesNothingElse locations hostDir := by
  constructor
  · intro same
    refine ⟨?_, ?_⟩
    · intro place alone other outside
      have answered := (filtered_eq_some_iff.mpr alone)
      rw [← same, all_eq_some_iff] at answered
      exact (answered other).mp (Or.inr outside)
    · intro nothing place alone
      have answered : (repositorySource locations hostDir).toOption = some place := by
        rw [all_eq_some_iff]
        intro other
        rw [or_iff_right (nothing other), alone other]
      rw [same, filtered_eq_some_iff] at answered
      exact nothing place ((answered place).mpr rfl)
  · intro clear
    refine Option.ext fun place => ?_
    rw [all_eq_some_iff, filtered_eq_some_iff]
    constructor
    · intro every other
      constructor
      · intro under
        exact (every other).mp (Or.inl under)
      · rintro rfl
        by_contra apart
        refine clear.none ?_ other ?_
        · intro place under
          exact apart ((every place).mp (Or.inl under) ▸ under)
        · intro place
          constructor
          · intro outside
            exact (every place).mp (Or.inr outside)
          · rintro rfl
            exact ((every place).mpr rfl).resolve_left apart
    · intro alone other
      constructor
      · rintro (under | outside)
        · exact (alone other).mp under
        · exact clear.one place alone other outside
      · intro same
        exact Or.inl ((alone other).mpr same)

theorem trimmed_wanted (hostDir : String) : trimmed (wanted hostDir) = wanted hostDir := by
  rw [wanted, Offload.norm, stripSlashes, String.toList_ofList]
  exact List.rdropWhile_idempotent ..

theorem findsOwnFolder_of_decide (decides : OwnCopiesDecide locations hostDir) :
    FindsOwnFolder locations hostDir := by
  rintro server folder ⟨location, member, under⟩ together
  obtain ⟨named, apart, maps⟩ := mapped_of_copiedAt folder (trimmed_wanted hostDir)
  refine ⟨named, ?_, apart⟩
  rw [decides, filtered_eq_some_iff]
  have each : ∀ location ∈ locations, location.isUnder (wanted hostDir) = true →
      mapped (wanted hostDir) location = some (server, String.ofList named) := by
    intro location member under
    obtain ⟨relative, spelled⟩ := isUnder_iff.mp under
    exact maps location server relative spelled (together location member relative spelled)
  intro other
  constructor
  · rintro ⟨location, member, under, names⟩
    rw [← mapped_eq_some_iff, each location member under] at names
    exact (Option.some.inj names).symm
  · rintro rfl
    exact ⟨location, member, under, mapped_eq_some_iff.mp (each location member under)⟩

/-- The folder asked maps to its own copies, whatever copies of other folders are given along, exactly where those name
nothing else. -/
theorem own_copies_found_iff (locations : List Location) (hostDir : String) :
    FindsOwnFolder locations hostDir ∧ OwnCopiesDecide locations hostDir ↔
      OutsideNamesNothingElse locations hostDir := by
  rw [← ownCopiesDecide_iff]
  exact ⟨And.right, fun decides => ⟨findsOwnFolder_of_decide decides, decides⟩⟩

section Instances

/-- Two entries of one server: its whole backup folder, and one database's, which goes to a second repository. -/
def wholeEntry : Entry := ⟨"ALL", "LAB-A", "/backup", "", "/r1"⟩

def ownEntry : Entry := ⟨"MY", "LAB-A", "/backup/my_db", "", "/r2"⟩

def copyRow (fileId : Int) (repository : String) (entry : Entry) (filePath : String) : CopyRow :=
  ⟨fileId, "LAB-A", true, repository, "", filePath,
    some (repositoryPath asciiLower entry (RepositoryPaths.walFile fileId filePath)), "2026-10-30T01:00:00Z"⟩

def twoEntries : List CopyRow :=
  [copyRow 1 "R1" wholeEntry "/backup/my1db/a.bak", copyRow 2 "R2" ownEntry "/backup/my_db/b.bak"]

/-- The store hands the copy of `my1db` over with that of `my_db`, whose pattern it matches; its root `/backup` is above
the folder asked, and the answer is refused. -/
theorem sibling_makes_it_refuse :
    (repositorySource (repositoryLocations twoEntries "LAB-A" "/backup/my_db" 50) "/backup/my_db").toOption = none ∧
      (repositorySource ((repositoryLocations twoEntries "LAB-A" "/backup/my_db" 50).filter
        (Location.isUnder (wanted "/backup/my_db"))) "/backup/my_db").toOption = some ("R2", "/r2/LAB-A") := by
  constructor
  · decide +kernel
  · decide +kernel

end Instances

end DbaBrain.BackupRestore.RepositorySource
