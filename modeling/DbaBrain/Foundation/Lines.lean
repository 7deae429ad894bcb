import Mathlib

/-!
# Lines and parts of a text

Python's `splitlines` and `partition`. Lines without a break are read back from
the text they end in newlines in, and no line has a break in it.
-/

namespace DbaBrain.Foundation.Lines

/-- The characters `str.splitlines` ends a line at. -/
def isBreak (c : Char) : Bool := c.toNat ∈ [10, 11, 12, 13, 28, 29, 30, 133, 8232, 8233]

/-- The lines of a text behind the start of one: `\r\n` ends one line. -/
def splitLinesFrom (line : List Char) : List Char → List (List Char)
  | [] => if line = [] then [] else [line]
  | '\r' :: '\n' :: rest => line :: splitLinesFrom [] rest
  | c :: rest => if isBreak c then line :: splitLinesFrom [] rest else splitLinesFrom (line ++ [c]) rest

/-- `text.splitlines()`. -/
def splitLines (text : List Char) : List (List Char) := splitLinesFrom [] text

def Unbroken (line : List Char) : Prop := ∀ c ∈ line, isBreak c = false

instance (line : List Char) : Decidable (Unbroken line) := List.decidableBAll _ line

theorem splitLinesFrom_plain {c : Char} (plain : isBreak c = false) (line rest : List Char) :
    splitLinesFrom line (c :: rest) = splitLinesFrom (line ++ [c]) rest := by
  rw [splitLinesFrom, plain, if_neg (by decide)]
  rintro _ rfl
  cases plain

theorem splitLinesFrom_newline (line rest : List Char) :
    splitLinesFrom line ('\n' :: rest) = line :: splitLinesFrom [] rest := by
  rw [splitLinesFrom]
  · rfl
  · rintro _ same
    exact absurd same (by decide)

theorem splitLinesFrom_append {front : List Char} (plain : Unbroken front) (line rest : List Char) :
    splitLinesFrom line (front ++ rest) = splitLinesFrom (line ++ front) rest := by
  induction front generalizing line with
  | nil => rw [List.nil_append, List.append_nil]
  | cons c more ih =>
    obtain ⟨first, others⟩ := List.forall_mem_cons.mp plain
    rw [List.cons_append, splitLinesFrom_plain first, ih others, List.append_assoc, List.singleton_append]

/-- Lines without a break are read back from the text they end in newlines in. -/
theorem splitLines_terminated {lines : List (List Char)} (plain : ∀ line ∈ lines, Unbroken line) :
    splitLines (lines.flatMap fun line => line ++ ['\n']) = lines := by
  induction lines with
  | nil => rfl
  | cons line rest ih =>
    obtain ⟨first, others⟩ := List.forall_mem_cons.mp plain
    rw [List.flatMap_cons, List.append_assoc, splitLines, splitLinesFrom_append first, List.nil_append,
      List.singleton_append, splitLinesFrom_newline]
    exact congrArg (line :: ·) (ih others)

variable {text : List Char}

theorem unbroken_of_splitLinesFrom {line : List Char} (plain : Unbroken line) :
    ∀ read ∈ splitLinesFrom line text, Unbroken read := by
  fun_induction splitLinesFrom line text with
  | case1 => exact fun _ member => absurd member List.not_mem_nil
  | case2 line stated => exact fun read member => List.mem_singleton.mp member ▸ plain
  | case3 line rest ih =>
    exact List.forall_mem_cons.mpr ⟨plain, ih fun _ member => absurd member List.not_mem_nil⟩
  | case4 line c rest apart ends ih =>
    exact List.forall_mem_cons.mpr ⟨plain, ih fun _ member => absurd member List.not_mem_nil⟩
  | case5 line c rest apart inside ih =>
    refine ih fun other member => ?_
    rcases List.mem_append.mp member with before | last
    · exact plain other before
    · rw [List.mem_singleton.mp last]
      exact Bool.eq_false_iff.mpr inside

/-- No line has a break in it. -/
theorem unbroken_of_splitLines {read : List Char} (member : read ∈ splitLines text) : Unbroken read :=
  unbroken_of_splitLinesFrom (fun _ member => absurd member List.not_mem_nil) read member

/-! ## Parts -/

section Parts

variable {κ : Type} [DecidableEq κ]

/-- The two sides of the first place a separator stands at. -/
def partitionAt (separator : List κ) : List κ → Option (List κ × List κ)
  | [] => none
  | c :: rest =>
      if separator.isPrefixOf (c :: rest) then some ([], (c :: rest).drop separator.length)
      else (partitionAt separator rest).map fun parts => (c :: parts.1, parts.2)

variable {separator front : List κ}

theorem partitionAt_here (stated : separator ≠ []) (rest : List κ) :
    partitionAt separator (separator ++ rest) = some ([], rest) := by
  cases separator with
  | nil => exact absurd rfl stated
  | cons first others =>
    have stands : (first :: others).isPrefixOf (first :: (others ++ rest)) = true :=
      List.isPrefixOf_iff_prefix.mpr ⟨rest, rfl⟩
    rw [List.cons_append, partitionAt, if_pos stands, ← List.cons_append, List.drop_left]

/-- A front that holds the separator's first character nowhere is passed over. -/
theorem partitionAt_append {first : κ} {others : List κ} (apart : first ∉ front) (rest : List κ) :
    partitionAt (first :: others) (front ++ rest) =
      (partitionAt (first :: others) rest).map fun parts => (front ++ parts.1, parts.2) := by
  induction front with
  | nil => simp
  | cons c more ih =>
    obtain ⟨different, later⟩ := not_or.mp (mt List.mem_cons.mpr apart)
    have passed : ¬(first :: others).isPrefixOf (c :: (more ++ rest)) = true := by
      simp [different]
    rw [List.cons_append, partitionAt, if_neg passed, ih later, Option.map_map]
    rfl

/-- A separator of one character parts a text at its first place. -/
theorem partitionAt_single {c : κ} (apart : c ∉ front) (rest : List κ) :
    partitionAt [c] (front ++ c :: rest) = some (front, rest) := by
  have here : partitionAt [c] (c :: rest) = some ([], rest) := partitionAt_here (List.cons_ne_nil c []) rest
  rw [partitionAt_append apart, here]
  simp

theorem eq_append_of_partitionAt {text before after : List κ}
    (parted : partitionAt separator text = some (before, after)) : text = before ++ separator ++ after := by
  induction text generalizing before with
  | nil => cases parted
  | cons c rest ih =>
    rw [partitionAt] at parted
    split at parted
    · rename_i stands
      obtain ⟨rfl, rfl⟩ := Prod.mk.inj (Option.some.inj parted)
      obtain ⟨more, same⟩ := List.isPrefixOf_iff_prefix.mp stands
      rw [← same, List.drop_left, List.nil_append]
    · obtain ⟨parts, found, same⟩ := Option.map_eq_some_iff.mp parted
      obtain ⟨rfl, rfl⟩ := Prod.mk.inj same
      rw [ih found, List.cons_append, List.cons_append]

end Parts

/-! ## Texts split at a sign -/

section Splits

variable {α : Type*} [BEq α] [LawfulBEq α] {sign : α} {text part : List α}

theorem notMem_of_mem_splitOn (member : part ∈ text.splitOn sign) : sign ∉ part := by
  induction text generalizing part with
  | nil =>
    rw [List.splitOn_nil, List.mem_singleton] at member
    exact member ▸ List.not_mem_nil
  | cons c text ih =>
    obtain ⟨first, others, split⟩ := List.exists_cons_of_ne_nil (List.splitOn_ne_nil sign text)
    rw [List.splitOn_cons_eq_if_modifyHead] at member
    split_ifs at member with same
    · rcases List.mem_cons.mp member with rfl | later
      · exact List.not_mem_nil
      · exact ih later
    · rw [split, List.modifyHead_cons] at member
      rw [split] at ih
      rcases List.mem_cons.mp member with rfl | later
      · rintro (⟨_⟩ | ⟨_, inside⟩)
        · exact same BEq.rfl
        · exact ih List.mem_cons_self inside
      · exact ih (List.mem_cons_of_mem _ later)

variable {parts : List (List α)}

/-- A text before another only adds to the first of its parts. -/
theorem splitOn_append_of_splitOn_eq_cons (front : List α) (split : text.splitOn sign = part :: parts) :
    (front ++ text).splitOn sign = (front ++ part).splitOn sign ++ parts := by
  induction front with
  | nil =>
    have whole : part.splitOn sign = [part] :=
      List.splitOn_eq_singleton (notMem_of_mem_splitOn (split ▸ List.mem_cons_self))
    rw [List.nil_append, List.nil_append, split, whole, List.singleton_append]
  | cons c front ih =>
    rw [List.cons_append, List.cons_append, List.splitOn_cons_eq_if_modifyHead, List.splitOn_cons_eq_if_modifyHead, ih]
    by_cases same : (c == sign) = true
    · rw [if_pos same, if_pos same, List.cons_append]
    · obtain ⟨first, others, shown⟩ := List.exists_cons_of_ne_nil (List.splitOn_ne_nil sign (front ++ part))
      rw [if_neg same, if_neg same, shown]
      rfl

/-- Each part ends with the sign if the text does. -/
theorem flatMap_splitOn (sign : α) (text : List α) :
    (text.splitOn sign).flatMap (fun part => part ++ [sign]) = text ++ [sign] := by
  induction text with
  | nil => simp
  | cons c text ih =>
    obtain ⟨first, others, split⟩ := List.exists_cons_of_ne_nil (List.splitOn_ne_nil sign text)
    rw [List.splitOn_cons_eq_if_modifyHead]
    split_ifs with same
    · rw [List.flatMap_cons, ih, eq_of_beq same]
      rfl
    · rw [split, List.modifyHead_cons, List.flatMap_cons]
      rw [split, List.flatMap_cons] at ih
      rw [List.cons_append, List.cons_append, ih]
      rfl

theorem splitOn_flatMap (unbroken : ∀ part ∈ parts, sign ∉ part) :
    (parts.flatMap fun part => part ++ [sign]).splitOn sign = parts ++ [[]] := by
  induction parts with
  | nil => rfl
  | cons part parts ih =>
    obtain ⟨first, others⟩ := List.forall_mem_cons.mp unbroken
    rw [List.flatMap_cons, List.append_assoc, List.singleton_append,
      List.splitOn_append_cons_self_of_not_mem first, ih others]
    rfl

end Splits

end DbaBrain.Foundation.Lines
