import DbaBrain.Foundation.Dict
import DbaBrain.Foundation.Text
import DbaBrain.Lib.BackupKinds

/-!
# What the staging cleanup holds obsolete

`obsolete_only` reads a file's kind from its folder and its name, and its
chain from the folder above.  A file is obsolete when the newest full of its
chain is newer; a chain with no full it recognises is measured by the newest
full of the whole tree.  The tree is laid out by database and kind, and its
times are any linear order.
-/

namespace DbaBrain.BackupRestore.DeleteBackup

open DbaBrain.Foundation DbaBrain.Lib

/-- Python's `str.lower`, on ASCII text what it is there. -/
structure Lowering where
  lower : String → String
  ascii : ∀ text : String, text.toList.all (fun c => c.toNat < 128) = true → lower text = Text.asciiLower text

def isSeparator (c : Char) : Bool := c = '/' || c = '\\'

/-- The parts of a path, between its slashes and backslashes. -/
def pathParts (path : String) : List String :=
  (((Text.strip path).toList.splitOnP isSeparator).filter fun part => part ≠ []).map String.ofList

def backupTypeFolders : List String :=
  ["full", "diff", "differential", "incr", "incremental", "log", "archivelog", "arch", "redo"]

def diffFolders : List String := ["diff", "differential", "incr", "incremental"]

def logFolders : List String := ["log", "archivelog", "arch", "redo"]

def diffMarkers : List String := ["_diff_", "_incr_"]

def logMarkers : List String := ["_log_"]

section Classified

variable (py : Lowering)

def chainGroup (path : String) : String :=
  let folders := (pathParts path).dropLast
  let folders := match folders.getLast? with
    | some folder => if py.lower folder ∈ backupTypeFolders then folders.dropLast else folders
    | none => folders
  (folders.getLast?.map py.lower).getD ""

def marked (markers : List String) (name : String) : Bool := markers.any fun marker => marker.toList <:+: name.toList

def backupKind (path : String) : BackupKind :=
  let parts := pathParts path
  let name := (parts.getLast?.map py.lower).getD ""
  let folder := (parts.dropLast.getLast?.map py.lower).getD ""
  if ".trn".toList <:+ name.toList ∨ folder ∈ logFolders ∨ marked logMarkers name then .log
  else if folder ∈ diffFolders ∨ marked diffMarkers name then .diff
  else .full

variable {τ : Type} [LinearOrder τ]

/-- The fulls a tree's candidates are recognised as, by time and path. -/
def recognisedFulls (candidates : List (String × τ × Int)) : List (Lex (τ × String)) :=
  (candidates.filter fun candidate => backupKind py candidate.1 = .full).map fun candidate =>
    toLex (candidate.2.1, candidate.1)

/-- The newest full of each chain. -/
def anchors (fulls : List (Lex (τ × String))) : Dict String (Lex (τ × String)) :=
  Dict.greatest (fun full => chainGroup py (ofLex full).2) fulls

/-- What a candidate is measured by. -/
def anchorOf (fulls : List (Lex (τ × String))) (fallback : Lex (τ × String)) (path : String) : Lex (τ × String) :=
  ((anchors py fulls).get? (chainGroup py path)).getD fallback

/-- The candidate is older than what it is measured by. -/
def olderThan (anchor : Lex (τ × String)) (path : String) (stamp : τ) : Bool :=
  if backupKind py path ≠ .full then stamp < (ofLex anchor).1 else toLex (stamp, path) < anchor

def obsoleteOnly (candidates : List (String × τ × Int)) : List String :=
  match (recognisedFulls py candidates).argmax id with
  | none => candidates.map Prod.fst
  | some fallback =>
      (candidates.filter fun candidate =>
        olderThan py (anchorOf py (recognisedFulls py candidates) fallback candidate.1) candidate.1 candidate.2.1).map
          Prod.fst

end Classified

/-! ## The layout -/

inductive Extension
  | bak
  | trn

def Extension.text : Extension → String
  | .bak => "bak"
  | .trn => "trn"

def folderOf : BackupKind → String
  | .full => "FULL"
  | .diff => "DIFF"
  | .log => "LOG"

/-- One part of a path. -/
structure Part where
  text : String
  separated : text.toList.all (fun c => !isSeparator c) = true

/-- The name of a database's folder. -/
structure Folder extends Part where
  nonempty : text ≠ ""

/-- A staged file: its names, and when it was taken. -/
structure Staged (τ : Type) where
  database : Folder
  kind : BackupKind
  stamp : Part
  extension : Extension
  timestamp : τ
  size : Int

def Staged.name {τ : Type} (file : Staged τ) : String :=
  file.database.text ++ "_" ++ folderOf file.kind ++ "_" ++ file.stamp.text ++ "." ++ file.extension.text

/-- The separator paths are written with. -/
inductive Separator
  | slash
  | backslash

def Separator.char : Separator → Char
  | .slash => '/'
  | .backslash => '\\'

def Staged.path {τ : Type} (root : String) (separator : Separator) (file : Staged τ) : String :=
  String.ofList (root.toList ++ separator.char :: (file.database.text.toList ++ separator.char ::
    ((folderOf file.kind).toList ++ separator.char :: file.name.toList)))

structure Tree (τ : Type) where
  root : String
  separator : Separator
  files : List (Staged τ)
  distinct : (files.map (Staged.path root separator)).Nodup

namespace Tree

variable {τ : Type} (tree : Tree τ)

def path (file : Staged τ) : String := file.path tree.root tree.separator

def candidates : List (String × τ × Int) := tree.files.map fun file => (tree.path file, file.timestamp, file.size)

end Tree

/-! ### What the paths say -/

section Paths

theorem isSeparator_char (separator : Separator) : isSeparator separator.char = true := by
  cases separator <;> rfl

theorem isSpace_char (separator : Separator) : Text.isSpace separator.char = false := by
  cases separator <;> rfl

variable {c : Char} {text : String}

theorem dropWhile_append_cons {p : Char → Bool} (front back : List Char) (stops : p c = false) :
    ∃ front', (front ++ c :: back).dropWhile p = front' ++ c :: back := by
  induction front with
  | nil => exact ⟨[], by simp [stops]⟩
  | cons head rest ih =>
    cases kept : p head with
    | true => simpa [kept] using ih
    | false => exact ⟨head :: rest, by simp [kept]⟩

/-- Stripping leaves what stands from a character that is no space to another. -/
theorem strip_append_cons (front middle : List Char) {last : Char} (first : Text.isSpace c = false)
    (stop : Text.isSpace last = false) : ∃ front',
      (Text.strip (String.ofList (front ++ c :: (middle ++ [last])))).toList = front' ++ c :: (middle ++ [last]) := by
  obtain ⟨front', cut⟩ := dropWhile_append_cons front (middle ++ [last]) first
  refine ⟨front', ?_⟩
  rw [Text.strip, Text.stripChars, String.toList_ofList, String.toList_ofList, cut]
  have back : (front' ++ c :: (middle ++ [last])).reverse = last :: (middle.reverse ++ c :: front'.reverse) := by simp
  rw [back, List.dropWhile_cons_of_neg (by simp [stop])]
  simp

theorem toList_ne_nil (nonempty : text ≠ "") : text.toList ≠ [] := by
  intro empty
  exact nonempty (String.toList_injective empty)

variable {τ : Type} (root : String) (separator : Separator) (file : Staged τ)

theorem noSeparator_of_all (separated : text.toList.all (fun c => !isSeparator c) = true) :
    ∀ c ∈ text.toList, isSeparator c = false := by
  intro c member
  simpa using List.all_eq_true.mp separated c member

theorem noSeparator_folderOf (kind : BackupKind) : ∀ c ∈ (folderOf kind).toList, isSeparator c = false := by
  apply noSeparator_of_all
  cases kind <;> rfl

theorem noSeparator_extension (extension : Extension) : ∀ c ∈ extension.text.toList, isSeparator c = false := by
  apply noSeparator_of_all
  cases extension <;> rfl

theorem noSeparator_part (part : Part) : ∀ c ∈ part.text.toList, isSeparator c = false :=
  noSeparator_of_all part.separated

theorem noSeparator_name : ∀ c ∈ file.name.toList, isSeparator c = false := by
  intro c member
  simp only [Staged.name, String.toList_append, List.mem_append] at member
  rcases member with (((((database | line) | folder) | line) | stamp) | dot) | extension
  · exact noSeparator_part file.database.toPart c database
  · revert line
    simp only [String.reduceToList, List.mem_singleton]
    rintro rfl
    rfl
  · exact noSeparator_folderOf file.kind c folder
  · revert line
    simp only [String.reduceToList, List.mem_singleton]
    rintro rfl
    rfl
  · exact noSeparator_part file.stamp c stamp
  · revert dot
    simp only [String.reduceToList, List.mem_singleton]
    rintro rfl
    rfl
  · exact noSeparator_extension file.extension c extension

theorem name_ends : ∃ front last, file.name.toList = front ++ [last] ∧ Text.isSpace last = false := by
  cases extension : file.extension with
  | bak =>
    refine ⟨(file.database.text ++ "_" ++ folderOf file.kind ++ "_" ++ file.stamp.text ++ "." ++ "ba").toList, 'k', ?_, rfl⟩
    simp [Staged.name, extension, Extension.text]
  | trn =>
    refine ⟨(file.database.text ++ "_" ++ folderOf file.kind ++ "_" ++ file.stamp.text ++ "." ++ "tr").toList, 'n', ?_, rfl⟩
    simp [Staged.name, extension, Extension.text]

theorem pathParts_path : ∃ front,
    pathParts (file.path root separator) = front ++ [file.database.text, folderOf file.kind, file.name] := by
  obtain ⟨start, last, ends, stop⟩ := name_ends file
  have spelled : file.path root separator = String.ofList (root.toList ++ separator.char ::
      ((file.database.text.toList ++ separator.char :: ((folderOf file.kind).toList ++ separator.char :: start)) ++ [last])) := by
    simp [Staged.path, ends]
  obtain ⟨front, stripped⟩ := strip_append_cons root.toList
    (file.database.text.toList ++ separator.char :: ((folderOf file.kind).toList ++ separator.char :: start))
    (isSpace_char separator) stop
  have parts : (Text.strip (file.path root separator)).toList.splitOnP isSeparator = front.splitOnP isSeparator ++
      [file.database.text.toList, (folderOf file.kind).toList, file.name.toList] := by
    rw [spelled, stripped, List.splitOnP_append_cons _ _ (isSeparator_char separator)]
    have rest : file.database.text.toList ++ separator.char :: ((folderOf file.kind).toList ++ separator.char :: start) ++ [last] =
        file.database.text.toList ++ separator.char :: ((folderOf file.kind).toList ++ separator.char :: file.name.toList) := by
      simp [ends]
    rw [rest, List.splitOnP_append_cons_of_forall_mem (noSeparator_part file.database.toPart) _ (isSeparator_char separator),
      List.splitOnP_append_cons_of_forall_mem (noSeparator_folderOf file.kind) _ (isSeparator_char separator),
      List.splitOnP_eq_singleton (noSeparator_name file)]
  have filled : ∀ part ∈ [file.database.text.toList, (folderOf file.kind).toList, file.name.toList], part ≠ [] := by
    intro part member
    simp only [List.mem_cons, List.not_mem_nil, or_false] at member
    rcases member with rfl | rfl | rfl
    · exact toList_ne_nil file.database.nonempty
    · cases file.kind <;> decide
    · simp [ends]
  refine ⟨((front.splitOnP isSeparator).filter fun part => part ≠ []).map String.ofList, ?_⟩
  have whole : [file.database.text.toList, (folderOf file.kind).toList, file.name.toList].filter (fun part => part ≠ []) =
      [file.database.text.toList, (folderOf file.kind).toList, file.name.toList] :=
    List.filter_eq_self.mpr fun part member => by simpa using filled part member
  rw [pathParts, parts, List.filter_append, List.map_append, whole]
  simp

variable (py : Lowering)

theorem lower_folderOf (kind : BackupKind) : py.lower (folderOf kind) ∈ backupTypeFolders ∧
    (kind = .diff → py.lower (folderOf kind) ∈ diffFolders) ∧ (kind = .log → py.lower (folderOf kind) ∈ logFolders) := by
  have small : py.lower (folderOf kind) = Text.asciiLower (folderOf kind) := py.ascii _ (by cases kind <;> decide)
  rw [small]
  cases kind <;> decide +kernel

theorem chainGroup_path : chainGroup py (file.path root separator) = py.lower file.database.text := by
  obtain ⟨front, parts⟩ := pathParts_path root separator file
  have folders : (front ++ [file.database.text, folderOf file.kind, file.name]).dropLast =
      front ++ [file.database.text, folderOf file.kind] := by
    simp [List.dropLast_append_of_ne_nil]
  rw [chainGroup, parts, folders]
  simp [(lower_folderOf py file.kind).1, List.dropLast_append_of_ne_nil]

theorem kind_eq_full (recognised : backupKind py (file.path root separator) = .full) : file.kind = .full := by
  obtain ⟨front, parts⟩ := pathParts_path root separator file
  have folder : ((pathParts (file.path root separator)).dropLast.getLast?.map py.lower).getD "" =
      py.lower (folderOf file.kind) := by
    rw [parts]
    simp [List.dropLast_append_of_ne_nil]
  obtain ⟨_, diff, log⟩ := lower_folderOf py file.kind
  unfold backupKind at recognised
  dsimp only at recognised
  rw [folder] at recognised
  split at recognised
  · cases recognised
  · rename_i notLog
    split at recognised
    · cases recognised
    · rename_i notDiff
      cases kind : file.kind with
      | full => rfl
      | diff => exact absurd (Or.inl (diff kind)) notDiff
      | log => exact absurd (Or.inr (Or.inl (log kind))) notLog

end Paths

/-! ## What the cleanup must not name -/

section Protection

variable {τ : Type} [LinearOrder τ] (py : Lowering) (tree : Tree τ)

structure NewestFull (file : Staged τ) : Prop where
  member : file ∈ tree.files
  full : file.kind = .full
  newest : ∀ other ∈ tree.files, other.database = file.database → other.kind = .full →
    toLex (other.timestamp, tree.path other) ≤ toLex (file.timestamp, tree.path file)

/-- The cleanup names no database's newest full, and no DIFF or LOG of that database at or after it. -/
def KeepsChains : Prop := ∀ newest, NewestFull tree newest →
  tree.path newest ∉ obsoleteOnly py tree.candidates ∧
    ∀ file ∈ tree.files, file.database = newest.database → file.kind ≠ .full → newest.timestamp ≤ file.timestamp →
      tree.path file ∉ obsoleteOnly py tree.candidates

/-- The file is a full, and its folder, its name and its extension say so. -/
def Recognised (file : Staged τ) : Prop := file.kind = .full ∧ backupKind py (tree.path file) = .full

/-- A recognised full that measures a database: of the folder name it shares up to case, or of any
where no full of that name is recognised. -/
structure Measures (database : Folder) (full : Staged τ) : Prop where
  member : full ∈ tree.files
  recognised : Recognised py tree full
  own : py.lower full.database.text = py.lower database.text ∨
    ∀ other ∈ tree.files, Recognised py tree other → py.lower other.database.text ≠ py.lower database.text

def NoneNewer : Prop := ∀ newest, NewestFull tree newest →
  (∃ full ∈ tree.files, Recognised py tree full) ∧ ∀ full, Measures py tree newest.database full →
    full.timestamp ≤ newest.timestamp ∧ (backupKind py (tree.path newest) = .full →
      toLex (full.timestamp, tree.path full) ≤ toLex (newest.timestamp, tree.path newest))

variable {py tree}

omit [LinearOrder τ] in
theorem mem_recognisedFulls {full : Lex (τ × String)} : full ∈ recognisedFulls py tree.candidates ↔
    ∃ file ∈ tree.files, Recognised py tree file ∧ toLex (file.timestamp, tree.path file) = full := by
  simp only [recognisedFulls, Tree.candidates, List.mem_map, List.mem_filter, decide_eq_true_eq]
  constructor
  · rintro ⟨_, ⟨⟨file, member, rfl⟩, recognised⟩, rfl⟩
    exact ⟨file, member, ⟨kind_eq_full tree.root tree.separator file py recognised, recognised⟩, rfl⟩
  · rintro ⟨file, member, ⟨_, recognised⟩, rfl⟩
    exact ⟨_, ⟨⟨file, member, rfl⟩, recognised⟩, rfl⟩

theorem anchorOf_spec {fallback : Lex (τ × String)}
    (newest : (recognisedFulls py tree.candidates).argmax id = some fallback) (file : Staged τ) :
    (∃ full, Measures py tree file.database full ∧
      anchorOf py (recognisedFulls py tree.candidates) fallback (tree.path file) =
        toLex (full.timestamp, tree.path full)) ∧
    ∀ full, Measures py tree file.database full → toLex (full.timestamp, tree.path full) ≤
      anchorOf py (recognisedFulls py tree.candidates) fallback (tree.path file) := by
  have group (other : Staged τ) : chainGroup py (tree.path other) = py.lower other.database.text :=
    chainGroup_path tree.root tree.separator other py
  have greatest := Dict.get?_greatest (fun full : Lex (τ × String) => chainGroup py (ofLex full).2)
    (recognisedFulls py tree.candidates) (chainGroup py (tree.path file))
  unfold anchorOf anchors
  cases found : (Dict.greatest (fun full : Lex (τ × String) => chainGroup py (ofLex full).2)
      (recognisedFulls py tree.candidates)).get? (chainGroup py (tree.path file)) with
  | none =>
    rw [found] at greatest
    have others : ∀ other ∈ tree.files, Recognised py tree other →
        py.lower other.database.text ≠ py.lower file.database.text := by
      intro other member recognised
      have apart := greatest _ (mem_recognisedFulls.mpr ⟨other, member, recognised, rfl⟩)
      rwa [ofLex_toLex, group, group] at apart
    rw [Option.getD_none]
    constructor
    · obtain ⟨full, member, recognised, same⟩ := mem_recognisedFulls.mp (List.argmax_mem newest)
      exact ⟨full, ⟨member, recognised, Or.inr others⟩, same.symm⟩
    · intro full measures
      exact List.le_of_mem_argmax (mem_recognisedFulls.mpr ⟨full, measures.member, measures.recognised, rfl⟩) newest
  | some held =>
    rw [found] at greatest
    obtain ⟨member, own, most⟩ := greatest
    obtain ⟨full, present, recognised, rfl⟩ := mem_recognisedFulls.mp member
    rw [ofLex_toLex, group, group] at own
    rw [Option.getD_some]
    refine ⟨⟨full, ⟨present, recognised, Or.inl own⟩, rfl⟩, ?_⟩
    intro other measures
    refine most _ (mem_recognisedFulls.mpr ⟨other, measures.member, measures.recognised, rfl⟩) ?_
    rw [ofLex_toLex, group, group]
    rcases measures.own with same | none
    · exact same
    · exact absurd own (none full present recognised)

variable {file : Staged τ} {anchor : Lex (τ × String)} {path : String} {newest : Staged τ}

/-- A file is named when nothing is recognised, or when it is older than what its database is measured by. -/
theorem mem_obsoleteOnly (member : file ∈ tree.files) :
    tree.path file ∈ obsoleteOnly py tree.candidates ↔ (∀ full ∈ tree.files, ¬ Recognised py tree full) ∨
      ∃ fallback, (recognisedFulls py tree.candidates).argmax id = some fallback ∧
        olderThan py (anchorOf py (recognisedFulls py tree.candidates) fallback (tree.path file)) (tree.path file)
          file.timestamp = true := by
  have own : (tree.path file, file.timestamp, file.size) ∈ tree.candidates := List.mem_map_of_mem member
  unfold obsoleteOnly
  cases newest : (recognisedFulls py tree.candidates).argmax id with
  | none =>
    refine iff_of_true (List.mem_map_of_mem own) (Or.inl ?_)
    intro full present recognised
    rw [List.argmax_eq_none] at newest
    have listed := mem_recognisedFulls.mpr ⟨full, present, recognised, rfl⟩
    rw [newest] at listed
    cases listed
  | some fallback =>
    obtain ⟨full, present, recognised, _⟩ := mem_recognisedFulls.mp (List.argmax_mem newest)
    dsimp only
    rw [List.mem_map]
    constructor
    · rintro ⟨candidate, chosen, same⟩
      obtain ⟨listed, older⟩ := List.mem_filter.mp chosen
      obtain ⟨other, there, rfl⟩ := List.mem_map.mp listed
      obtain rfl : other = file := List.inj_on_of_nodup_map tree.distinct there member same
      exact Or.inr ⟨fallback, rfl, older⟩
    · rintro (none | ⟨_, same, older⟩)
      · exact absurd recognised (none full present)
      · cases same
        exact ⟨_, List.mem_filter.mpr ⟨own, older⟩, rfl⟩

theorem olderThan_of_full (full : backupKind py path = .full) (stamp : τ) :
    olderThan py anchor path stamp = decide (toLex (stamp, path) < anchor) := by
  rw [olderThan, if_neg (not_not.mpr full)]

theorem olderThan_of_not_full (other : backupKind py path ≠ .full) (stamp : τ) :
    olderThan py anchor path stamp = decide (stamp < (ofLex anchor).1) := by
  rw [olderThan, if_pos other]

theorem timestamp_le_of_lex {first second : Lex (τ × String)} (order : first ≤ second) :
    (ofLex first).1 ≤ (ofLex second).1 := by
  rcases Prod.Lex.le_iff.mp order with less | ⟨same, _⟩
  · exact less.le
  · exact same.le

theorem newest_notMem (isNewest : NewestFull tree newest) (keeps : NoneNewer py tree) :
    tree.path newest ∉ obsoleteOnly py tree.candidates := by
  obtain ⟨⟨recognised, present, is⟩, noneNewer⟩ := keeps newest isNewest
  rw [mem_obsoleteOnly isNewest.member]
  rintro (nothing | ⟨fallback, found, older⟩)
  · exact nothing recognised present is
  · obtain ⟨⟨full, measures, same⟩, _⟩ := anchorOf_spec found newest
    obtain ⟨order, lexOrder⟩ := noneNewer full measures
    rw [same] at older
    by_cases kind : backupKind py (tree.path newest) = .full
    · rw [olderThan_of_full kind, decide_eq_true_eq] at older
      exact absurd older (not_lt.mpr (lexOrder kind))
    · rw [olderThan_of_not_full kind, decide_eq_true_eq] at older
      exact absurd older (not_lt.mpr order)

theorem dependent_notMem (isNewest : NewestFull tree newest) (keeps : NoneNewer py tree) (member : file ∈ tree.files)
    (own : file.database = newest.database) (dependent : file.kind ≠ .full) (after : newest.timestamp ≤ file.timestamp) :
    tree.path file ∉ obsoleteOnly py tree.candidates := by
  obtain ⟨⟨recognised, present, is⟩, noneNewer⟩ := keeps newest isNewest
  rw [mem_obsoleteOnly member]
  rintro (nothing | ⟨fallback, found, older⟩)
  · exact nothing recognised present is
  · obtain ⟨⟨full, measures, same⟩, _⟩ := anchorOf_spec found file
    rw [own] at measures
    have order := (noneNewer full measures).1
    have kind : backupKind py (tree.path file) ≠ .full :=
      fun recognised => dependent (kind_eq_full tree.root tree.separator file py recognised)
    rw [same, olderThan_of_not_full kind, decide_eq_true_eq] at older
    exact absurd older (not_lt.mpr (order.trans after))

end Protection

/-- The cleanup spares every database's newest chain exactly where some full is recognised and none that
measures a database is newer than the database's own newest. -/
theorem keepsChains_iff {τ : Type} [LinearOrder τ] (py : Lowering) (tree : Tree τ) :
    KeepsChains py tree ↔ NoneNewer py tree := by
  constructor
  · intro keeps newest isNewest
    have spared := (keeps newest isNewest).1
    rw [mem_obsoleteOnly isNewest.member, not_or] at spared
    obtain ⟨something, notOlder⟩ := spared
    push Not at something
    obtain ⟨recognised, present, is⟩ := something
    refine ⟨⟨recognised, present, is⟩, ?_⟩
    intro full measures
    obtain ⟨fallback, found⟩ : ∃ fallback, (recognisedFulls py tree.candidates).argmax id = some fallback := by
      rw [← Option.ne_none_iff_exists', Ne, List.argmax_eq_none]
      exact List.ne_nil_of_mem (mem_recognisedFulls.mpr ⟨recognised, present, is, rfl⟩)
    have below := (anchorOf_spec found newest).2 full measures
    have kept : ¬ olderThan py (anchorOf py (recognisedFulls py tree.candidates) fallback (tree.path newest))
        (tree.path newest) newest.timestamp = true := fun older => notOlder ⟨fallback, found, older⟩
    by_cases kind : backupKind py (tree.path newest) = .full
    · rw [olderThan_of_full kind, decide_eq_true_eq, not_lt] at kept
      have order := below.trans kept
      exact ⟨timestamp_le_of_lex order, fun _ => order⟩
    · rw [olderThan_of_not_full kind, decide_eq_true_eq, not_lt] at kept
      exact ⟨(timestamp_le_of_lex below).trans kept, fun recognised => absurd recognised kind⟩
  · intro noneNewer newest isNewest
    refine ⟨newest_notMem isNewest noneNewer, ?_⟩
    intro file member own dependent after
    exact dependent_notMem isNewest noneNewer member own dependent after

/-! ### A database with a marker in its name -/

def asciiLowering : Lowering := ⟨Text.asciiLower, fun _ _ => rfl⟩

def fullOf (database : Folder) (timestamp : Nat) : Staged Nat :=
  ⟨database, .full, ⟨"20261029", rfl⟩, .bak, timestamp, 1⟩

def crmLogDb : Folder := ⟨⟨"crm_log_db", rfl⟩, by decide⟩

def orders : Folder := ⟨⟨"orders", rfl⟩, by decide⟩

def twoDatabases : Tree Nat where
  root := "/staging"
  separator := .slash
  files := [fullOf crmLogDb 1, fullOf orders 2]
  distinct := by decide +kernel

/-- The only full of `crm_log_db` reads as a log, and `orders` has a newer one. -/
theorem marked_database_loses_its_full : ¬ KeepsChains asciiLowering twoDatabases := by
  intro keeps
  have only : NewestFull twoDatabases (fullOf crmLogDb 1) := by
    refine ⟨List.mem_cons_self, rfl, ?_⟩
    intro other member own _
    rcases List.mem_cons.mp member with rfl | member
    · exact le_refl _
    · rw [List.mem_singleton.mp member] at own
      exact absurd (congrArg (fun folder => folder.text) own) (by decide)
  exact (keeps _ only).1 (by decide +kernel)

end DbaBrain.BackupRestore.DeleteBackup
