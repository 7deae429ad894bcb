import DbaBrain.BackupRestore.Offload

/-!
# Which files share a path on the repository

A file under the entry's backup folder keeps its path behind that folder, and
any other is placed under its database, or its type, by its bare name.  Two
files share a path on the repository where what is kept of them is the same: two
spellings of one place, two files of one name outside the folder, or a file
outside it that is named as one inside it.
-/

namespace DbaBrain.BackupRestore.RepositoryPaths

open DbaBrain.Foundation DbaBrain.Foundation.Text
open DbaBrain.BackupRestore.Offload

variable (lower : String → String) (entry : Entry) (file first second : BackupFile)

abbrev WindowsPath (path : String) : Prop := '\\' ∈ path.toList ∨ path.toList[1]? = some ':'

def compared (path : String) : String := if WindowsPath file.filePath then lower (norm path) else norm path

/-- What stands in a file's path behind the backup folder and a slash. -/
def behind : String :=
  String.ofList ((norm file.filePath).toList.drop ((norm entry.backupDir).toList.length + 1))

/-- The file is under the entry's backup folder. -/
def Inside : Prop :=
  norm entry.backupDir ≠ "" ∧
    (compared lower file entry.backupDir ++ "/").toList <+: (compared lower file file.filePath).toList ∧
    behind entry file ≠ ""

def own : String :=
  (if file.databaseName = "" then fileTypeText file.fileType else file.databaseName) ++ "/" ++ file.fileName

instance : Decidable (Inside lower entry file) := inferInstanceAs (Decidable (_ ∧ _))

/-- What is kept of a file's path. -/
def kept : String := if Inside lower entry file then behind entry file else own file

def copiesFolder : String := join (stripSlashes entry.folder) entry.serverId

theorem relativePath_eq :
    relativePath lower file.filePath entry.backupDir = if Inside lower entry file then behind entry file else "" := by
  change (if norm entry.backupDir = "" then ""
    else if (compared lower file entry.backupDir ++ "/").toList <+: (compared lower file file.filePath).toList then
      behind entry file
    else "") = _
  by_cases inside : Inside lower entry file
  · obtain ⟨named, starts, -⟩ := id inside
    rw [if_pos inside, if_neg named, if_pos starts]
  · rw [if_neg inside]
    split
    · rfl
    · rename_i named
      split
      · rename_i starts
        by_contra some
        exact inside ⟨named, starts, some⟩
      · rfl

theorem repositoryPath_eq : repositoryPath lower entry file = join (copiesFolder entry) (kept lower entry file) := by
  change join (copiesFolder entry) (if relativePath lower file.filePath entry.backupDir = "" then own file
    else relativePath lower file.filePath entry.backupDir) = _
  rw [relativePath_eq, kept]
  by_cases inside : Inside lower entry file
  · rw [if_pos inside, if_pos inside, if_neg inside.2.2]
  · rw [if_neg inside, if_neg inside, if_pos rfl]

/-! ## Joined paths -/

abbrev Rooted (path : String) : Prop := path.toList.head? = some '/'

theorem join_of_rooted {front back : String} (rooted : Rooted back) : join front back = back := if_pos rooted

/-- What is not rooted can be read off the joined path. -/
theorem join_injective {front back other : String} (relative : ¬ Rooted back) (also : ¬ Rooted other)
    (same : join front back = join front other) : back = other := by
  unfold join at same
  rw [if_neg relative, if_neg also] at same
  split at same
  · exact String.append_right_inj front |>.mp same
  · exact String.append_right_inj (front ++ "/") |>.mp same

/-- Two paths are joined to one exactly where they are one, or one of them is rooted and spells the other's out. -/
theorem join_eq_join_iff (front back other : String) :
    join front back = join front other ↔
      back = other ∨ Rooted back ∧ back = join front other ∨ Rooted other ∧ other = join front back := by
  constructor
  · intro same
    by_cases rooted : Rooted back
    · rw [join_of_rooted rooted] at same
      exact Or.inr (Or.inl ⟨rooted, same⟩)
    · by_cases also : Rooted other
      · rw [join_of_rooted also] at same
        exact Or.inr (Or.inr ⟨also, same.symm⟩)
      · exact Or.inl (join_injective rooted also same)
  · rintro (rfl | ⟨rooted, spelled⟩ | ⟨rooted, spelled⟩)
    · rfl
    · rw [join_of_rooted rooted]
      exact spelled
    · rw [join_of_rooted rooted]
      exact spelled.symm

/-! ## Files that share a path -/

/-- What is kept of one file is what is kept of the other. -/
inductive SameKept : Prop
  | inside (under : Inside lower entry first) (also : Inside lower entry second)
      (alike : behind entry first = behind entry second)
  | outside (apart : ¬ Inside lower entry first) (also : ¬ Inside lower entry second) (alike : own first = own second)
  | across (under : Inside lower entry first) (apart : ¬ Inside lower entry second)
      (alike : behind entry first = own second)
  | back (apart : ¬ Inside lower entry first) (under : Inside lower entry second)
      (alike : own first = behind entry second)

/-- What is kept of the first file starts at the root, and says where under the copies' folder the second's copy is. -/
structure SpellsOut : Prop where
  rooted : Rooted (kept lower entry first)
  spelled : kept lower entry first = join (copiesFolder entry) (kept lower entry second)

/-- Two files of which the same is kept, or of which one spells out where the other's copy lies. -/
def Shared : Prop :=
  SameKept lower entry first second ∨ SpellsOut lower entry first second ∨ SpellsOut lower entry second first

variable {lower entry file first second}

theorem kept_eq_iff : kept lower entry first = kept lower entry second ↔ SameKept lower entry first second := by
  unfold kept
  constructor
  · intro alike
    by_cases under : Inside lower entry first
    · rw [if_pos under] at alike
      by_cases also : Inside lower entry second
      · rw [if_pos also] at alike
        exact .inside under also alike
      · rw [if_neg also] at alike
        exact .across under also alike
    · rw [if_neg under] at alike
      by_cases also : Inside lower entry second
      · rw [if_pos also] at alike
        exact .back under also alike
      · rw [if_neg also] at alike
        exact .outside under also alike
  · intro same
    cases same with
    | inside under also alike => rwa [if_pos under, if_pos also]
    | outside apart also alike => rwa [if_neg apart, if_neg also]
    | across under apart alike => rwa [if_pos under, if_neg apart]
    | back apart under alike => rwa [if_neg apart, if_pos under]

theorem repositoryPath_eq_iff :
    repositoryPath lower entry first = repositoryPath lower entry second ↔ Shared lower entry first second := by
  rw [repositoryPath_eq, repositoryPath_eq, join_eq_join_iff, kept_eq_iff, Shared]
  constructor
  · rintro (same | ⟨rooted, spelled⟩ | ⟨rooted, spelled⟩)
    · exact Or.inl same
    · exact Or.inr (Or.inl ⟨rooted, spelled⟩)
    · exact Or.inr (Or.inr ⟨rooted, spelled⟩)
  · rintro (same | spells | spells)
    · exact Or.inl same
    · exact Or.inr (Or.inl ⟨spells.rooted, spells.spelled⟩)
    · exact Or.inr (Or.inr ⟨spells.rooted, spells.spelled⟩)

/-- Different files of an entry have different paths on the repository exactly where no two of them share what is
kept. -/
theorem repository_paths_apart_iff (lower : String → String) (entry : Entry) (files : List BackupFile) :
    (∀ first ∈ files, ∀ second ∈ files, first.filePath ≠ second.filePath →
        repositoryPath lower entry first ≠ repositoryPath lower entry second) ↔
      ∀ first ∈ files, ∀ second ∈ files, first.filePath ≠ second.filePath → ¬ Shared lower entry first second := by
  simp only [ne_eq, repositoryPath_eq_iff]

section Instances

def walFile (fileId : Int) (filePath : String) : BackupFile where
  fileId := fileId
  backupId := "PG"
  databaseName := ""
  fileType := .wal
  fileName := "000000010000000000000001"
  filePath := filePath
  hostPath := ""
  backupStartedAt := none
  backupEndedAt := none
  createdAt := "2026-10-30T01:00:00Z"
  runStartedAt := none
  sizeBytes := none
  checksumAfterBackup := none
  verdict := .sizeFailed
  dated := by decide
  hashed := by decide

def pgEntry : Entry := ⟨"PG", "LAB-A", "/backup", "", "/repository"⟩

/-- Two archived segments of one name, in two folders outside the backup folder. -/
theorem archives_share_a_path :
    (walFile 1 "/wal/one/000000010000000000000001").filePath ≠
        (walFile 2 "/wal/two/000000010000000000000001").filePath ∧
      repositoryPath asciiLower pgEntry (walFile 1 "/wal/one/000000010000000000000001") =
        repositoryPath asciiLower pgEntry (walFile 2 "/wal/two/000000010000000000000001") := by
  constructor
  · decide
  · decide

end Instances

end DbaBrain.BackupRestore.RepositoryPaths
