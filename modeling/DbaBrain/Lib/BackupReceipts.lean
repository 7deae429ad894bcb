import DbaBrain.Foundation.Dict
import DbaBrain.Foundation.Lines
import DbaBrain.Foundation.Text

/-!
# The receipt a backup script prints

A script writes one `FILE` line for each file, its fields between tabs and the
path last; `parse_file_lines` reads the lines back. The scripts end a line at a
newline, and the reader at every line break Python knows: a receipt is read back
whole exactly where no free text in it has another line break.
-/

namespace DbaBrain.Lib.BackupReceipts

open DbaBrain.Foundation
open DbaBrain.Foundation.Lines
open DbaBrain.Foundation.Text (isSpace stripChars)

/-- The interpreter's own beyond ASCII: the case of letters, and what is a digit. -/
structure Unicode where
  upper : List Char → List Char
  lower : List Char → List Char
  isdigit : List Char → Bool
  toInt : List Char → Option Nat
  isDecimal : Char → Bool
  upper_ascii : ∀ text, (∀ c ∈ text, c.toNat < 128) → upper text = text.map Char.toUpper
  lower_ascii : ∀ text, (∀ c ∈ text, c.toNat < 128) → lower text = text.map Char.toLower
  isdigit_nil : isdigit [] = false
  isdigit_decimal : ∀ number, isdigit (Nat.toDigits 10 number) = true
  toInt_decimal : ∀ number, toInt (Nat.toDigits 10 number) = some number
  isDecimal_digit : ∀ c, c.isDigit = true → isDecimal c = true

structure ParsedFile where
  path : List Char
  fileName : List Char
  fileFolder : List Char
  databaseName : List Char
  hostPath : List Char
  containerName : List Char
  fileType : List Char
  sizeBytes : Option Nat
  sha256 : Option (List Char)
  engineVerify : List Char
  engineVerifyText : List Char
  encrypted : Option Nat
  backupStartedAt : Option (List Char)
  deriving DecidableEq

/-- `path.replace("\\", "/").rstrip("/")`. -/
def slashed (path : List Char) : List Char :=
  ((path.map fun c => if c = '\\' then '/' else c).reverse.dropWhile (· = '/')).reverse

def fileName (path : List Char) : List Char := ((slashed path).reverse.takeWhile (· ≠ '/')).reverse

def fileFolder (path : List Char) : List Char :=
  if '/' ∈ path ∨ '\\' ∈ path then
    if '/' ∈ slashed path then (((slashed path).reverse.dropWhile (· ≠ '/')).drop 1).reverse else slashed path
  else []

/-- `fields` of a line's head, each `key=value` behind a tab; of a key given twice, the last. -/
def readFields (head : List Char) : Dict (List Char) (List Char) :=
  Dict.empty.update ((head.splitOn '\t').tail.map fun part => (partitionAt ['='] part).getD (part, []))

/-- A text a pattern of literals and `\d`s, ended by `$`, matches. -/
def matchesShape (isDecimal : Char → Bool) : List (Option Char) → List Char → Bool
  | [], [] => true
  | [], ['\n'] => true
  | some literal :: shape, c :: rest => c = literal && matchesShape isDecimal shape rest
  | none :: shape, c :: rest => isDecimal c && matchesShape isDecimal shape rest
  | _, _ => false

/-- `_UTC_STAMP`. -/
def stampShape : List (Option Char) :=
  [none, none, none, none, some '-', none, none, some '-', none, none, some 'T', none, none, some ':', none, none,
    some ':', none, none, some 'Z']

def isHexDigit (c : Char) : Bool := c ∈ "0123456789abcdef".toList

def engineVerifyResults : List (List Char) := ["passed".toList, "failed".toList, "not_run".toList]

/-- `fields.get(key) or other`. -/
def getOr (fields : Dict (List Char) (List Char)) (key : String) (other : List Char) : List Char :=
  let stated := (fields.get? key.toList).getD []
  if stated = [] then other else stated

variable (unicode : Unicode)

/-- `int(size) if size.isdigit() else None`; `none` where `int` raises. -/
def readSize (size : List Char) : Option (Option Nat) :=
  if unicode.isdigit size then (unicode.toInt size).map some else some none

/-- What one line says, if it is a receipt; the outer `none` is the error `int` raises. -/
def parseFileLine (raw : List Char) : Option (Option ParsedFile) :=
  let line := (raw.reverse.dropWhile (· = '\r')).reverse
  if !"FILE\t".toList.isPrefixOf line then some none
  else
    match partitionAt "\tpath=".toList line with
    | none => some none
    | some (head, path) =>
        if path = [] then some none
        else
          let fields := readFields head
          let sha := unicode.lower (stripChars (getOr fields "sha256" []))
          let size := stripChars (getOr fields "size" [])
          let verify := unicode.lower (stripChars (getOr fields "verify" "not_run".toList))
          let encrypted := unicode.lower (stripChars (getOr fields "encrypted" []))
          let started := stripChars (getOr fields "start" [])
          (readSize unicode size).map fun sizeBytes => some
            { path := path
              fileName := fileName path
              fileFolder := fileFolder path
              databaseName := getOr fields "db" []
              hostPath := (fields.get? "host_path".toList).getD path
              containerName := getOr fields "container" []
              fileType := unicode.upper (stripChars (getOr fields "type" []))
              sizeBytes := sizeBytes
              sha256 := if sha.length = 64 && sha.all isHexDigit then some sha else none
              engineVerify := if verify ∈ engineVerifyResults then verify else "not_run".toList
              engineVerifyText := getOr fields "note" []
              encrypted := if encrypted = "yes".toList then some 1 else if encrypted = "no".toList then some 0 else none
              backupStartedAt := if matchesShape unicode.isDecimal stampShape started then some started else none }

/-- Every `FILE` line of a script's output; `none` where reading a size raises. -/
def parseFileLines (text : List Char) : Option (List ParsedFile) :=
  ((splitLines text).mapM (parseFileLine unicode)).map (List.filterMap id)

/-! ## What a script writes -/

/-- A character of a file type: the scripts write them in capitals, digits and underscores. -/
def isTypeChar (c : Char) : Bool := ('A' ≤ c && c ≤ 'Z') || c.isDigit || c = '_'

/-- 64 hexadecimal digits. -/
structure Checksum where
  text : List Char
  length : text.length = 64
  digits : ∀ c ∈ text, isHexDigit c = true

/-- `YYYY-MM-DDTHH:MM:SSZ`. -/
structure UtcStamp where
  text : List Char
  length : text.length = 20
  reads : matchesShape Char.isDigit stampShape text = true

inductive EngineVerify
  | passed
  | failed
  | notRun

def EngineVerify.text : EngineVerify → List Char
  | .passed => "passed".toList
  | .failed => "failed".toList
  | .notRun => "not_run".toList

/-- What a script says of a file it wrote. A script that hashed or measured nothing leaves the field empty; one that
keeps no note, or no start, leaves the field out. -/
structure Receipt where
  databaseName : List Char
  fileType : List Char
  sizeBytes : Option Nat
  sha256 : Option Checksum
  engineVerify : EngineVerify
  encrypted : Bool
  started : Option (Option UtcStamp)
  note : Option (List Char)
  hostPath : List Char
  container : List Char
  path : List Char
  typed : ∀ c ∈ fileType, isTypeChar c = true
  stated : path ≠ []
  tabless : ∀ text ∈ [databaseName, note.getD [], hostPath, container, path], '\t' ∉ text ∧ '\n' ∉ text

namespace Receipt

/-- The texts a script writes as they are. -/
def texts (receipt : Receipt) : List (List Char) :=
  [receipt.databaseName, receipt.note.getD [], receipt.hostPath, receipt.container, receipt.path]

def startText (started : Option UtcStamp) : List Char := (started.map UtcStamp.text).getD []

def fields (receipt : Receipt) : List (List Char × List Char) :=
  [("db".toList, receipt.databaseName), ("type".toList, receipt.fileType),
    ("size".toList, (receipt.sizeBytes.map (Nat.toDigits 10)).getD []),
    ("sha256".toList, (receipt.sha256.map Checksum.text).getD []), ("verify".toList, receipt.engineVerify.text),
    ("encrypted".toList, if receipt.encrypted then "yes".toList else "no".toList)] ++
  receipt.started.toList.map (fun started => ("start".toList, startText started)) ++
  receipt.note.toList.map (fun note => ("note".toList, note)) ++
  [("host_path".toList, receipt.hostPath), ("container".toList, receipt.container)]

/-- `\tkey=value`. -/
def fieldText (field : List Char × List Char) : List Char := '\t' :: (field.1 ++ '=' :: field.2)

def head (receipt : Receipt) : List Char := "FILE".toList ++ receipt.fields.flatMap fieldText

def line (receipt : Receipt) : List Char := receipt.head ++ "\tpath=".toList ++ receipt.path

/-- What the catalog is to hold of it. -/
def parsed (receipt : Receipt) : ParsedFile where
  path := receipt.path
  fileName := fileName receipt.path
  fileFolder := fileFolder receipt.path
  databaseName := receipt.databaseName
  hostPath := receipt.hostPath
  containerName := receipt.container
  fileType := receipt.fileType
  sizeBytes := receipt.sizeBytes
  sha256 := receipt.sha256.map Checksum.text
  engineVerify := receipt.engineVerify.text
  engineVerifyText := receipt.note.getD []
  encrypted := some (if receipt.encrypted then 1 else 0)
  backupStartedAt := receipt.started.join.map UtcStamp.text

end Receipt

/-- The lines a script prints. -/
def writeFileLines (receipts : List Receipt) : List Char := receipts.flatMap fun receipt => receipt.line ++ ['\n']

/-- No text of a receipt has a line break in it. -/
def Whole (receipt : Receipt) : Prop := ∀ text ∈ receipt.texts, Unbroken text

/-! ## Texts of plain characters -/

/-- A character that prints, and is no blank. -/
def Graphic (text : List Char) : Prop := ∀ c ∈ text, 33 ≤ c.toNat ∧ c.toNat < 127

instance (text : List Char) : Decidable (Graphic text) := List.decidableBAll _ text

namespace Graphic

variable {text : List Char}

theorem ascii (graphic : Graphic text) : ∀ c ∈ text, c.toNat < 128 := fun c member => by
  have range := graphic c member
  omega

theorem tabless (graphic : Graphic text) : '\t' ∉ text := fun member => by
  have range := graphic '\t' member
  exact absurd range.1 (by decide)

theorem unbroken (graphic : Graphic text) : Unbroken text := fun c member => by
  have range := graphic c member
  simp only [isBreak, List.mem_cons, List.not_mem_nil, or_false, decide_eq_false_iff_not]
  omega

theorem spaceless (graphic : Graphic text) : ∀ c ∈ text, isSpace c = false := fun c member => by
  have range := graphic c member
  simp only [isSpace, List.mem_cons, List.not_mem_nil, or_false, Bool.or_eq_false_iff, Bool.and_eq_false_iff,
    decide_eq_false_iff_not]
  omega

theorem stripped (graphic : Graphic text) : stripChars text = text := by
  have front : text.dropWhile isSpace = text :=
    Text.dropWhile_eq_self fun c first => graphic.spaceless c (List.mem_of_mem_head? first)
  have back : text.reverse.dropWhile isSpace = text.reverse :=
    Text.dropWhile_eq_self fun c first => graphic.spaceless c (List.mem_reverse.mp (List.mem_of_mem_head? first))
  rw [stripChars, front, back, List.reverse_reverse]

end Graphic

theorem isDigit_range {c : Char} (digit : c.isDigit = true) : 48 ≤ c.toNat ∧ c.toNat ≤ 57 := by
  simp only [Char.isDigit, Bool.and_eq_true, decide_eq_true_eq] at digit
  exact ⟨UInt32.le_iff_toNat_le.mp digit.1, UInt32.le_iff_toNat_le.mp digit.2⟩

theorem graphic_digits (number : Nat) : Graphic (Nat.toDigits 10 number) := fun c member => by
  have range := isDigit_range (Nat.isDigit_of_mem_toDigits (by decide) (by decide) member)
  omega

theorem graphic_checksum (checksum : Checksum) : Graphic checksum.text := fun c member => by
  have digit := checksum.digits c member
  have letters : Graphic "0123456789abcdef".toList := by decide
  exact letters c (of_decide_eq_true digit)

theorem graphic_verify (verify : EngineVerify) : Graphic verify.text := by
  cases verify <;> decide

/-- A text of a pattern's length that matches it is made of its literals and digits. -/
theorem mem_of_matchesShape {isDecimal : Char → Bool} {shape : List (Option Char)} {text : List Char}
    (reads : matchesShape isDecimal shape text = true) (length : text.length = shape.length) :
    ∀ c ∈ text, isDecimal c = true ∨ some c ∈ shape := by
  induction shape generalizing text with
  | nil =>
    obtain rfl := List.eq_nil_of_length_eq_zero length
    exact fun c member => absurd member List.not_mem_nil
  | cons place shape ih =>
    cases text with
    | nil => cases length
    | cons first rest =>
      have shorter : rest.length = shape.length := Nat.succ.inj length
      have later : matchesShape isDecimal shape rest = true → ∀ c ∈ rest, isDecimal c = true ∨ some c ∈ place :: shape :=
        fun reads c member => (ih reads shorter c member).imp_right (List.mem_cons_of_mem place)
      cases place with
      | none =>
        rw [matchesShape, Bool.and_eq_true] at reads
        exact List.forall_mem_cons.mpr ⟨Or.inl reads.1, later reads.2⟩
      | some literal =>
        rw [matchesShape, Bool.and_eq_true, decide_eq_true_eq] at reads
        obtain ⟨rfl, reads⟩ := reads
        exact List.forall_mem_cons.mpr ⟨Or.inr List.mem_cons_self, later reads⟩

theorem matchesShape_mono {isDecimal other : Char → Bool} (more : ∀ c, isDecimal c = true → other c = true)
    {shape : List (Option Char)} {text : List Char} (reads : matchesShape isDecimal shape text = true) :
    matchesShape other shape text = true := by
  fun_induction matchesShape isDecimal shape text with
  | case1 => rfl
  | case2 => rfl
  | case3 literal shape c rest ih =>
    rw [Bool.and_eq_true] at reads
    rw [matchesShape, reads.1, ih reads.2]
    rfl
  | case4 shape c rest ih =>
    rw [Bool.and_eq_true] at reads
    rw [matchesShape, more c reads.1, ih reads.2]
    rfl
  | case5 => cases reads

theorem graphic_stamp (stamp : UtcStamp) : Graphic stamp.text := fun c member => by
  rcases mem_of_matchesShape stamp.reads stamp.length c member with digit | literal
  · have range := isDigit_range digit
    omega
  · have literals : Graphic (stampShape.filterMap id) := by decide
    exact literals c (List.mem_filterMap.mpr ⟨some c, literal, rfl⟩)

theorem typeChar_range {c : Char} (typed : isTypeChar c = true) :
    (65 ≤ c.toNat ∧ c.toNat ≤ 90) ∨ (48 ≤ c.toNat ∧ c.toNat ≤ 57) ∨ c.toNat = 95 := by
  simp only [isTypeChar, Bool.or_eq_true, Bool.and_eq_true, decide_eq_true_eq] at typed
  rcases typed with (letter | digit) | rfl
  · exact Or.inl letter
  · exact Or.inr (Or.inl (isDigit_range digit))
  · exact Or.inr (Or.inr rfl)

theorem graphic_type (receipt : Receipt) : Graphic receipt.fileType := fun c member => by
  have range := typeChar_range (receipt.typed c member)
  omega

/-! ## A line and its fields -/

/-- Parts behind separators are split from the front and each other. -/
theorem splitOn_flatMap {κ : Type} [DecidableEq κ] {separator : κ} {front : List κ} {parts : List (List κ)}
    (plain : separator ∉ front) (apart : ∀ part ∈ parts, separator ∉ part) :
    (front ++ parts.flatMap fun part => separator :: part).splitOn separator = front :: parts := by
  induction parts generalizing front with
  | nil =>
    rw [List.flatMap_nil, List.append_nil]
    exact List.splitOn_eq_singleton plain
  | cons part rest ih =>
    obtain ⟨first, others⟩ := List.forall_mem_cons.mp apart
    rw [List.flatMap_cons, List.cons_append, List.splitOn_append_cons_self, ih first others,
      List.splitOn_eq_singleton plain, List.singleton_append]

/-- Where a word ends at its first `=`, it begins a text exactly of that key. -/
theorem key_eq_of_isPrefix {word key rest : List Char} (plain : '=' ∉ word) (apart : '=' ∉ key)
    (begins : word ++ ['='] <+: key ++ '=' :: rest) : word = key := by
  obtain ⟨more, same⟩ := begins
  rw [List.append_assoc, List.singleton_append] at same
  have one := partitionAt_single plain more
  have other := partitionAt_single apart rest
  rw [same, other] at one
  exact (Prod.mk.inj (Option.some.inj one)).1.symm

/-- A key of a receipt's line. -/
structure IsKey (key : List Char) : Prop where
  tabless : '\t' ∉ key
  single : '=' ∉ key
  apart : key ≠ "path".toList
  unbroken : Unbroken key

theorem partition_fields {fields : List (List Char × List Char)} (keys : ∀ field ∈ fields, IsKey field.1)
    (tabless : ∀ field ∈ fields, '\t' ∉ field.2) (path : List Char) :
    partitionAt "\tpath=".toList (fields.flatMap Receipt.fieldText ++ ("\tpath=".toList ++ path)) =
      some (fields.flatMap Receipt.fieldText, path) := by
  induction fields with
  | nil => exact partitionAt_here (by decide) path
  | cons field rest ih =>
    obtain ⟨key, keys⟩ := List.forall_mem_cons.mp keys
    obtain ⟨bare, tabless⟩ := List.forall_mem_cons.mp tabless
    have later := ih keys tabless
    generalize behind : rest.flatMap Receipt.fieldText ++ ("\tpath=".toList ++ path) = tail at later
    have inner : '\t' ∉ field.1 ++ '=' :: field.2 := by
      rw [List.mem_append, List.mem_cons, not_or, not_or]
      exact ⟨key.tabless, by decide, bare⟩
    have passed : ¬"\tpath=".toList.isPrefixOf ('\t' :: ((field.1 ++ '=' :: field.2) ++ tail)) = true := by
      intro begins
      obtain ⟨more, same⟩ := List.isPrefixOf_iff_prefix.mp begins
      have inside : "path".toList ++ ['='] ++ more = field.1 ++ '=' :: (field.2 ++ tail) := by
        rw [List.append_assoc field.1, List.cons_append] at same
        exact (List.cons.inj same).2
      exact key.apart (key_eq_of_isPrefix (by decide) key.single ⟨more, inside⟩).symm
    have text : (field :: rest).flatMap Receipt.fieldText ++ ("\tpath=".toList ++ path) =
        '\t' :: ((field.1 ++ '=' :: field.2) ++ tail) := by
      rw [List.flatMap_cons, List.append_assoc, behind, Receipt.fieldText, List.cons_append]
    have parted : partitionAt "\tpath=".toList ((field.1 ++ '=' :: field.2) ++ tail) =
        some ((field.1 ++ '=' :: field.2) ++ rest.flatMap Receipt.fieldText, path) := by
      rw [show "\tpath=".toList = '\t' :: "path=".toList from rfl] at later ⊢
      rw [partitionAt_append inner, later]
      rfl
    rw [text, partitionAt, if_neg passed, parted, List.flatMap_cons, Receipt.fieldText]
    rfl

theorem readFields_fieldText {fields : List (List Char × List Char)} (keys : ∀ field ∈ fields, IsKey field.1)
    (tabless : ∀ field ∈ fields, '\t' ∉ field.2) (once : (fields.map Prod.fst).Nodup) :
    (readFields ("FILE".toList ++ fields.flatMap Receipt.fieldText)).entries = fields := by
  have parts : fields.flatMap Receipt.fieldText =
      (fields.map fun field => field.1 ++ '=' :: field.2).flatMap fun part => '\t' :: part := by
    rw [List.flatMap_map]
    rfl
  have apart : ∀ part ∈ fields.map fun field => field.1 ++ '=' :: field.2, '\t' ∉ part := by
    intro part member
    obtain ⟨field, among, rfl⟩ := List.mem_map.mp member
    rw [List.mem_append, List.mem_cons, not_or, not_or]
    exact ⟨(keys field among).tabless, by decide, tabless field among⟩
  have read : (fields.map fun field => field.1 ++ '=' :: field.2).map
      (fun part => (partitionAt ['='] part).getD (part, [])) = fields := by
    rw [List.map_map]
    refine (List.map_congr_left fun field among => ?_).trans (List.map_id fields)
    rw [Function.comp_apply, partitionAt_single (keys field among).single]
    rfl
  rw [readFields, parts, splitOn_flatMap (by decide) apart, List.tail_cons, read]
  exact Dict.entries_update once

/-! ## A receipt's own fields -/

def allKeys : List (List Char) :=
  ["db".toList, "type".toList, "size".toList, "sha256".toList, "verify".toList, "encrypted".toList] ++
    ["start".toList] ++ ["note".toList] ++ ["host_path".toList, "container".toList]

theorem isKey_of_mem {key : List Char} (member : key ∈ allKeys) : IsKey key := by
  have all : ∀ key ∈ allKeys, '\t' ∉ key ∧ '=' ∉ key ∧ key ≠ "path".toList ∧ Unbroken key := by decide
  obtain ⟨tabless, single, apart, unbroken⟩ := all key member
  exact ⟨tabless, single, apart, unbroken⟩

section Fields

variable (receipt : Receipt)

theorem keys_sublist : (receipt.fields.map Prod.fst).Sublist allKeys := by
  have starts : (receipt.started.toList.map fun started => ("start".toList, Receipt.startText started)).map Prod.fst
      |>.Sublist ["start".toList] := by
    cases receipt.started with
    | none => exact List.nil_sublist _
    | some _ => exact List.Sublist.refl _
  have notes : (receipt.note.toList.map fun note => ("note".toList, note)).map Prod.fst |>.Sublist ["note".toList] := by
    cases receipt.note with
    | none => exact List.nil_sublist _
    | some _ => exact List.Sublist.refl _
  rw [Receipt.fields, List.map_append, List.map_append, List.map_append]
  exact (((List.Sublist.refl _).append starts).append notes).append (List.Sublist.refl _)

theorem isKey_fields : ∀ field ∈ receipt.fields, IsKey field.1 := fun _ member =>
  isKey_of_mem ((keys_sublist receipt).subset (List.mem_map_of_mem member))

/-- A value of a receipt's line is one of its texts, or made of graphic characters. -/
theorem mem_fields {field : List Char × List Char} (member : field ∈ receipt.fields) :
    field.2 ∈ receipt.texts ∨ Graphic field.2 := by
  have size : Graphic ((receipt.sizeBytes.map (Nat.toDigits 10)).getD []) := by
    cases receipt.sizeBytes with
    | none => decide
    | some number => exact graphic_digits number
  have sha : Graphic ((receipt.sha256.map Checksum.text).getD []) := by
    cases receipt.sha256 with
    | none => decide
    | some checksum => exact graphic_checksum checksum
  have encrypted : Graphic (if receipt.encrypted then "yes".toList else "no".toList) := by
    cases receipt.encrypted <;> decide
  have start : ∀ started, Graphic (Receipt.startText started) := by
    rintro (_ | stamp)
    · decide
    · exact graphic_stamp stamp
  rw [Receipt.fields] at member
  rcases List.mem_append.mp member with front | last
  · rcases List.mem_append.mp front with front | noted
    · rcases List.mem_append.mp front with front | started
      · simp only [List.mem_cons, List.not_mem_nil, or_false] at front
        rcases front with rfl | rfl | rfl | rfl | rfl | rfl
        · exact Or.inl List.mem_cons_self
        · exact Or.inr (graphic_type receipt)
        · exact Or.inr size
        · exact Or.inr sha
        · exact Or.inr (graphic_verify receipt.engineVerify)
        · exact Or.inr encrypted
      · obtain ⟨stamp, _, rfl⟩ := List.mem_map.mp started
        exact Or.inr (start stamp)
    · obtain ⟨note, stated, rfl⟩ := List.mem_map.mp noted
      have own : receipt.note = some note := Option.mem_toList.mp stated
      left
      simp [Receipt.texts, own]
  · simp only [List.mem_cons, List.not_mem_nil, or_false] at last
    left
    rcases last with rfl | rfl <;> simp [Receipt.texts]

theorem fields_tabless : ∀ field ∈ receipt.fields, '\t' ∉ field.2 := by
  intro field member
  rcases mem_fields receipt member with text | graphic
  · exact (receipt.tabless _ text).1
  · exact graphic.tabless

theorem readFields_head : (readFields receipt.head).entries = receipt.fields := by
  refine readFields_fieldText (isKey_fields receipt) (fields_tabless receipt) ?_
  exact (keys_sublist receipt).nodup (by decide)

theorem get?_field {key value : List Char} (member : (key, value) ∈ receipt.fields) :
    (readFields receipt.head).get? key = some value := by
  rw [Dict.get?_eq_some_iff, readFields_head]
  exact member

/-- A receipt without line breaks is written in one line. -/
theorem unbroken_line {receipt : Receipt} (whole : Whole receipt) : Unbroken receipt.line := by
  intro c member
  have path : receipt.path ∈ receipt.texts := by simp [Receipt.texts]
  have file : Unbroken "FILE".toList := by decide
  have mark : Unbroken "\tpath=".toList := by decide
  rw [Receipt.line, Receipt.head, List.mem_append, List.mem_append, List.mem_append, List.mem_flatMap] at member
  rcases member with ((front | ⟨field, among, inside⟩) | middle) | last
  · exact file c front
  · rw [Receipt.fieldText, List.mem_cons, List.mem_append, List.mem_cons] at inside
    rcases inside with rfl | key | rfl | value
    · decide
    · exact (isKey_fields receipt field among).unbroken c key
    · decide
    · rcases mem_fields receipt among with text | graphic
      · exact whole _ text c value
      · exact graphic.unbroken c value
  · exact mark c middle
  · exact whole _ path c last

end Fields

/-! ## A line read back -/

theorem getOr_of_get? {fields : Dict (List Char) (List Char)} {key : String} {value other : List Char}
    (found : fields.get? key.toList = some value) : getOr fields key other = if value = [] then other else value := by
  rw [getOr, found]
  rfl

theorem getOr_of_absent {fields : Dict (List Char) (List Char)} {key : String} {other : List Char}
    (absent : fields.get? key.toList = none) : getOr fields key other = other := by
  rw [getOr, absent]
  exact if_pos rfl

section ReadBack

variable (receipt : Receipt)

theorem read_text (key : String) {value : List Char} (member : (key.toList, value) ∈ receipt.fields) :
    getOr (readFields receipt.head) key [] = value := by
  rw [getOr_of_get? (get?_field receipt member)]
  split
  · rename_i blank
    exact blank.symm
  · rfl

theorem read_absent {key : String} (absent : key.toList ∉ receipt.fields.map Prod.fst) :
    getOr (readFields receipt.head) key [] = [] := by
  refine getOr_of_absent (Dict.get?_eq_none_iff.mpr ?_)
  rw [readFields_head]
  exact absent

theorem read_note : getOr (readFields receipt.head) "note" [] = receipt.note.getD [] := by
  cases noted : receipt.note with
  | none =>
    refine read_absent receipt ?_
    rw [Receipt.fields, noted]
    cases receipt.started <;> simp
  | some note => exact read_text receipt "note" (by simp [Receipt.fields, noted])

theorem read_start : getOr (readFields receipt.head) "start" [] = Receipt.startText receipt.started.join := by
  cases started : receipt.started with
  | none =>
    refine read_absent receipt ?_
    rw [Receipt.fields, started]
    cases receipt.note <;> simp
  | some start => exact read_text receipt "start" (by simp [Receipt.fields, started])

theorem read_started : let started := stripChars (getOr (readFields receipt.head) "start" [])
    (if matchesShape unicode.isDecimal stampShape started then some started else none) =
      receipt.started.join.map UtcStamp.text := by
  dsimp only
  rw [read_start]
  cases receipt.started.join with
  | none => rfl
  | some stamp =>
    rw [show Receipt.startText (some stamp) = stamp.text from rfl, (graphic_stamp stamp).stripped,
      if_pos (matchesShape_mono unicode.isDecimal_digit stamp.reads)]
    rfl

theorem read_size : readSize unicode (stripChars (getOr (readFields receipt.head) "size" [])) =
    some receipt.sizeBytes := by
  have read : getOr (readFields receipt.head) "size" [] = (receipt.sizeBytes.map (Nat.toDigits 10)).getD [] :=
    read_text receipt "size" (by simp [Receipt.fields])
  rw [read]
  cases receipt.sizeBytes with
  | none =>
    change readSize unicode [] = _
    rw [readSize, unicode.isdigit_nil]
    rfl
  | some number =>
    change readSize unicode (stripChars (Nat.toDigits 10 number)) = _
    rw [(graphic_digits number).stripped, readSize, unicode.isdigit_decimal, if_pos rfl, unicode.toInt_decimal]
    rfl

theorem read_sha : let sha := unicode.lower (stripChars (getOr (readFields receipt.head) "sha256" []))
    (if sha.length = 64 && sha.all isHexDigit then some sha else none) = receipt.sha256.map Checksum.text := by
  have read : getOr (readFields receipt.head) "sha256" [] = (receipt.sha256.map Checksum.text).getD [] :=
    read_text receipt "sha256" (by simp [Receipt.fields])
  dsimp only
  rw [read]
  cases receipt.sha256 with
  | none =>
    change (if (unicode.lower []).length = 64 && _ then _ else _) = _
    rw [unicode.lower_ascii [] fun c member => absurd member List.not_mem_nil]
    rfl
  | some checksum =>
    have graphic := graphic_checksum checksum
    have lower : checksum.text.map Char.toLower = checksum.text := by
      have letters : ("0123456789abcdef".toList.all fun c => c.toLower = c) = true := by decide
      refine (List.map_congr_left fun c member => ?_).trans (List.map_id checksum.text)
      exact of_decide_eq_true (List.all_eq_true.mp letters c (of_decide_eq_true (checksum.digits c member)))
    change (let sha := unicode.lower (stripChars checksum.text)
      if sha.length = 64 && sha.all isHexDigit then some sha else none) = _
    dsimp only
    rw [graphic.stripped, unicode.lower_ascii _ graphic.ascii, lower, if_pos]
    · rfl
    · rw [checksum.length, List.all_eq_true.mpr checksum.digits]
      rfl

theorem read_verify : let verify := unicode.lower (stripChars (getOr (readFields receipt.head) "verify" "not_run".toList))
    (if verify ∈ engineVerifyResults then verify else "not_run".toList) = receipt.engineVerify.text := by
  have found : (readFields receipt.head).get? "verify".toList = some receipt.engineVerify.text :=
    get?_field receipt (by simp [Receipt.fields])
  have graphic := graphic_verify receipt.engineVerify
  dsimp only
  rw [getOr_of_get? found]
  generalize receipt.engineVerify = verify at graphic
  have stated : verify.text ≠ [] := by cases verify <;> decide
  have lower : verify.text.map Char.toLower = verify.text := by cases verify <;> decide
  have known : verify.text ∈ engineVerifyResults := by cases verify <;> decide
  rw [if_neg stated, graphic.stripped, unicode.lower_ascii _ graphic.ascii, lower, if_pos known]

theorem read_encrypted : let encrypted := unicode.lower (stripChars (getOr (readFields receipt.head) "encrypted" []))
    (if encrypted = "yes".toList then some 1 else if encrypted = "no".toList then some 0 else none) =
      some (if receipt.encrypted then 1 else 0) := by
  have read : getOr (readFields receipt.head) "encrypted" [] =
      if receipt.encrypted then "yes".toList else "no".toList :=
    read_text receipt "encrypted" (by simp [Receipt.fields])
  have graphic : Graphic (if receipt.encrypted then "yes".toList else "no".toList) := by
    cases receipt.encrypted <;> decide
  dsimp only
  rw [read, graphic.stripped, unicode.lower_ascii _ graphic.ascii]
  cases receipt.encrypted <;> rfl

theorem read_type : unicode.upper (stripChars (getOr (readFields receipt.head) "type" [])) = receipt.fileType := by
  have graphic := graphic_type receipt
  have upper : receipt.fileType.map Char.toUpper = receipt.fileType := by
    refine (List.map_congr_left fun c member => ?_).trans (List.map_id receipt.fileType)
    have range := typeChar_range (receipt.typed c member)
    rw [Char.toUpper, dif_neg]
    · rfl
    · rintro ⟨above, -⟩
      have low : 97 ≤ c.toNat := UInt32.le_iff_toNat_le.mp above
      omega
  rw [read_text receipt "type" (by simp [Receipt.fields]; rfl), graphic.stripped, unicode.upper_ascii _ graphic.ascii,
    upper]

/-- A receipt of one line is read back as what it says. -/
theorem parseFileLine_line {receipt : Receipt} (whole : Whole receipt) :
    parseFileLine unicode receipt.line = some (some receipt.parsed) := by
  have unreturned : ∀ c ∈ receipt.line.reverse, ¬c = '\r' := by
    rintro c member rfl
    exact absurd (unbroken_line whole '\r' (List.mem_reverse.mp member)) (by decide)
  have stripped : (receipt.line.reverse.dropWhile (· = '\r')).reverse = receipt.line := by
    rw [List.dropWhile_eq_self_iff.mpr, List.reverse_reverse]
    intro some
    simpa using unreturned _ (List.getElem_mem some)
  have begins : "FILE\t".toList.isPrefixOf receipt.line = true := List.isPrefixOf_iff_prefix.mpr ⟨_, rfl⟩
  have parted : partitionAt "\tpath=".toList receipt.line = some (receipt.head, receipt.path) := by
    have fields := partition_fields (isKey_fields receipt) (fields_tabless receipt) receipt.path
    rw [Receipt.line, Receipt.head, List.append_assoc, List.append_assoc]
    rw [show "\tpath=".toList = '\t' :: "path=".toList from rfl] at fields ⊢
    rw [partitionAt_append (by decide), fields]
    rfl
  have sha := read_sha unicode receipt
  have verify := read_verify unicode receipt
  have encrypted := read_encrypted unicode receipt
  have started := read_started unicode receipt
  dsimp only at sha verify encrypted started
  have name : getOr (readFields receipt.head) "db" [] = receipt.databaseName :=
    read_text receipt "db" (by simp [Receipt.fields])
  have container : getOr (readFields receipt.head) "container" [] = receipt.container :=
    read_text receipt "container" (by simp [Receipt.fields])
  have host : (readFields receipt.head).get? "host_path".toList = some receipt.hostPath :=
    get?_field receipt (by simp [Receipt.fields])
  unfold parseFileLine
  dsimp only
  rw [stripped, begins, parted]
  dsimp only
  rw [if_neg receipt.stated, read_size, Option.map_some, sha, verify, encrypted, started, name, container, host,
    read_type, read_note]
  rfl

end ReadBack

/-! ## What no line can say -/

theorem mem_of_mem_splitOn {κ : Type} [DecidableEq κ] {separator c : κ} {text part : List κ}
    (member : part ∈ text.splitOn separator) (inside : c ∈ part) : c ∈ text := by
  induction text generalizing part with
  | nil =>
    rw [List.splitOn_nil, List.mem_singleton] at member
    exact member ▸ inside
  | cons first rest ih =>
    rw [List.splitOn_cons_eq_if_modifyHead] at member
    split at member
    · rcases List.mem_cons.mp member with rfl | later
      · exact absurd inside List.not_mem_nil
      · exact List.mem_cons_of_mem first (ih later inside)
    · obtain ⟨front, others, pieces⟩ := List.exists_cons_of_ne_nil (List.splitOn_ne_nil separator rest)
      rw [pieces] at member ih
      rcases List.mem_cons.mp member with rfl | later
      · rcases List.mem_cons.mp inside with rfl | within
        · exact List.mem_cons_self
        · exact List.mem_cons_of_mem first (ih List.mem_cons_self within)
      · exact List.mem_cons_of_mem first (ih (List.mem_cons_of_mem front later) inside)

/-- The characters of a field are the head's. -/
theorem mem_head_of_get? {head key value : List Char} (found : (readFields head).get? key = some value) :
    ∀ c ∈ value, c ∈ head := by
  intro c inside
  rcases Dict.mem_of_mem_update (Dict.get?_eq_some_iff.mp found) with start | member
  · exact absurd start List.not_mem_nil
  · obtain ⟨part, split, same⟩ := List.mem_map.mp member
    have among : c ∈ part := by
      cases parted : partitionAt ['='] part with
      | none =>
        rw [parted] at same
        obtain ⟨-, rfl⟩ := Prod.mk.inj same
        exact absurd inside List.not_mem_nil
      | some sides =>
        rw [parted] at same
        obtain rfl : sides = (key, value) := same
        rw [eq_append_of_partitionAt parted]
        exact List.mem_append_right _ inside
    exact mem_of_mem_splitOn (List.mem_of_mem_tail split) among

theorem mem_head_of_getOr {head : List Char} {key : String} : ∀ c ∈ getOr (readFields head) key [], c ∈ head := by
  intro c inside
  cases found : (readFields head).get? key.toList with
  | none =>
    rw [getOr_of_absent found] at inside
    exact absurd inside List.not_mem_nil
  | some value =>
    rw [getOr_of_get? found] at inside
    split at inside
    · exact absurd inside List.not_mem_nil
    · exact mem_head_of_get? found c inside

/-- The texts a receipt is to give back. -/
def ParsedFile.texts (file : ParsedFile) : List (List Char) :=
  [file.databaseName, file.engineVerifyText, file.hostPath, file.containerName, file.path]

theorem unbroken_of_parseFileLine {raw : List Char} {file : ParsedFile} (plain : Unbroken raw)
    (read : parseFileLine unicode raw = some (some file)) : ∀ text ∈ file.texts, Unbroken text := by
  unfold parseFileLine at read
  dsimp only at read
  split at read
  · cases read
  · split at read
    · cases read
    · rename_i head path parted
      have line : ∀ c ∈ (raw.reverse.dropWhile (· = '\r')).reverse, isBreak c = false := fun c member =>
        plain c (List.mem_reverse.mp ((List.dropWhile_sublist _).subset (List.mem_reverse.mp member)))
      rw [eq_append_of_partitionAt parted] at line
      have front : Unbroken head := fun c member =>
        line c (List.mem_append_left _ (List.mem_append_left _ member))
      have back : Unbroken path := fun c member => line c (List.mem_append_right _ member)
      have field : ∀ key : String, Unbroken (getOr (readFields head) key []) := fun key c member =>
        front c (mem_head_of_getOr c member)
      have host : Unbroken (((readFields head).get? "host_path".toList).getD path) := by
        cases found : (readFields head).get? "host_path".toList with
        | none => exact back
        | some value => exact fun c member => front c (mem_head_of_get? found c member)
      split at read
      · cases read
      · obtain ⟨size, -, same⟩ := Option.map_eq_some_iff.mp read
        obtain rfl := Option.some.inj same
        simp only [ParsedFile.texts, List.forall_mem_cons]
        exact ⟨field "db", field "note", host, field "container", back, fun _ member => absurd member List.not_mem_nil⟩

theorem exists_of_mem_mapM {α β : Type} {make : α → Option β} {xs : List α} {made : List β}
    (read : xs.mapM make = some made) : ∀ y ∈ made, ∃ x ∈ xs, make x = some y := by
  induction xs generalizing made with
  | nil =>
    obtain rfl : [] = made := Option.some.inj read
    exact fun y member => absurd member List.not_mem_nil
  | cons x rest ih =>
    rw [List.mapM_cons] at read
    obtain ⟨first, one, read⟩ := Option.bind_eq_some_iff.mp read
    obtain ⟨others, more, same⟩ := Option.bind_eq_some_iff.mp read
    obtain rfl : first :: others = made := Option.some.inj same
    refine List.forall_mem_cons.mpr ⟨⟨x, List.mem_cons_self, one⟩, fun y member => ?_⟩
    obtain ⟨source, among, own⟩ := ih more y member
    exact ⟨source, List.mem_cons_of_mem x among, own⟩

theorem mapM_map {α β γ : Type} {make : β → Option γ} {change : α → β} {value : α → γ} {xs : List α}
    (each : ∀ x ∈ xs, make (change x) = some (value x)) : (xs.map change).mapM make = some (xs.map value) := by
  induction xs with
  | nil => rfl
  | cons x rest ih =>
    obtain ⟨first, others⟩ := List.forall_mem_cons.mp each
    rw [List.map_cons, List.mapM_cons, first, ih others]
    rfl

theorem unbroken_of_parseFileLines {text : List Char} {files : List ParsedFile}
    (read : parseFileLines unicode text = some files) : ∀ file ∈ files, ∀ text ∈ file.texts, Unbroken text := by
  obtain ⟨lines, parsed, rfl⟩ := Option.map_eq_some_iff.mp read
  intro file member
  obtain ⟨found, among, same⟩ := List.mem_filterMap.mp member
  obtain rfl : found = some file := same
  obtain ⟨raw, line, own⟩ := exists_of_mem_mapM parsed _ among
  exact unbroken_of_parseFileLine unicode (unbroken_of_splitLines line) own

/-! ## The whole receipt -/

/-- A receipt is read back whole exactly when no text in it has a line break. -/
theorem reads_back_iff (receipts : List Receipt) :
    parseFileLines unicode (writeFileLines receipts) = some (receipts.map Receipt.parsed) ↔
      ∀ receipt ∈ receipts, Whole receipt := by
  constructor
  · intro read receipt member
    exact unbroken_of_parseFileLines unicode read receipt.parsed (List.mem_map_of_mem member)
  · intro whole
    have plain : ∀ line ∈ receipts.map Receipt.line, Unbroken line := by
      intro line member
      obtain ⟨receipt, among, rfl⟩ := List.mem_map.mp member
      exact unbroken_line (whole receipt among)
    have lines : splitLines (writeFileLines receipts) = receipts.map Receipt.line := by
      rw [← splitLines_terminated plain, List.flatMap_map]
      rfl
    rw [parseFileLines, lines, mapM_map fun receipt among => parseFileLine_line unicode (whole receipt among),
      Option.map_some, List.filterMap_map]
    exact congrArg some (congrFun List.filterMap_eq_map receipts)

section Instances

/-- Letters and digits of ASCII only. -/
def ascii : Unicode where
  upper text := text.map Char.toUpper
  lower text := text.map Char.toLower
  isdigit text := text ≠ [] && text.all Char.isDigit
  toInt text := some (Nat.ofDigitChars 10 text 0)
  isDecimal := Char.isDigit
  upper_ascii _ _ := rfl
  lower_ascii _ _ := rfl
  isdigit_nil := rfl
  isdigit_decimal number := by
    rw [Bool.and_eq_true, List.all_eq_true]
    exact ⟨decide_eq_true Nat.toDigits_ne_nil, fun c member => Nat.isDigit_of_mem_toDigits (by decide) (by decide) member⟩
  toInt_decimal number := congrArg some Nat.ofDigitChars_ten_toDigits
  isDecimal_digit _ digit := digit

def formFeed : Receipt where
  databaseName := "APP\x0cDB".toList
  fileType := "FULL".toList
  sizeBytes := some 1024
  sha256 := none
  engineVerify := .passed
  encrypted := false
  started := some none
  note := none
  hostPath := "/b/x.bak".toList
  container := []
  path := "/b/x.bak".toList
  typed := List.all_eq_true.mp (by decide)
  stated := by decide
  tabless := by decide

/-- The form feed ends the line, and the file is not in the receipt read back. -/
theorem form_feed_loses_the_file :
    parseFileLines ascii (writeFileLines [formFeed]) = some [] ∧
      parseFileLines ascii (writeFileLines [formFeed]) ≠ some ([formFeed].map Receipt.parsed) := by
  have lost : parseFileLines ascii (writeFileLines [formFeed]) = some [] := by decide +kernel
  exact ⟨lost, by rw [lost]; simp⟩

end Instances

end DbaBrain.Lib.BackupReceipts
