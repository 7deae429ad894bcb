import DbaBrain.Telegram.MessageParts

/-!
# What the parts of a text keep

The line breaks inside a part are counted while it is filled, but for those of the
blank lines it begins with.  So a part can be longer than it may be, and a blank line
that is alone in a part makes an empty one.  Every break inside a part is written as
a plain one.
-/

namespace DbaBrain.Telegram.MessageParts

open DbaBrain.Foundation DbaBrain.Foundation.Text Lines

/-! ## Lines and their breaks -/

/-- A line and the break behind it; a text's last line may have none. -/
abbrev BrokenLine := List Char × List Char

def brokenLinesFrom (line : List Char) : List Char → List BrokenLine
  | [] => if line = [] then [] else [(line, [])]
  | '\r' :: '\n' :: rest => (line, ['\r', '\n']) :: brokenLinesFrom [] rest
  | c :: rest => if isBreak c then (line, [c]) :: brokenLinesFrom [] rest else brokenLinesFrom (line ++ [c]) rest

def brokenLines (text : List Char) : List BrokenLine := brokenLinesFrom [] text

def textOf (lines : List BrokenLine) : List Char := lines.flatMap fun line => line.1 ++ line.2

/-- A text without the line break it begins with. -/
def dropBreak : List Char → List Char
  | '\r' :: '\n' :: rest => rest
  | c :: rest => if isBreak c then rest else c :: rest
  | [] => []

/-- The text is the chunks in order; the line break behind a chunk, where another follows, is left out. -/
def Carries : List (List Char) → List Char → Prop
  | [], text => text = []
  | [chunk], text => text = chunk
  | chunk :: next :: rest, text => ∃ behind, text = chunk ++ behind ∧ Carries (next :: rest) (dropBreak behind)

def behind : List (List Char) → List Char → Option (List Char)
  | [], text => some text
  | chunk :: rest, text => if chunk <+: text then behind rest (dropBreak (text.drop chunk.length)) else none

/-- Each line is unbroken and each break is one; the last line may go without. -/
inductive Broken : List BrokenLine → Prop
  | nil : Broken []
  | last {line : List Char} (unbroken : ∀ c ∈ line, isBreak c = false) (filled : line ≠ []) : Broken [(line, [])]
  | cons {line ending : List Char} {rest : List BrokenLine} (unbroken : ∀ c ∈ line, isBreak c = false)
      (breaks : ending ≠ [] ∧ ∀ c ∈ ending, isBreak c = true) (plain : ∀ more, ending = '\n' :: more → more = [])
      (dropped : dropBreak (ending ++ textOf rest) = textOf rest) (later : Broken rest) :
      Broken ((line, ending) :: rest)

@[simp]
theorem textOf_nil : textOf [] = [] := rfl

theorem textOf_append (front back : List BrokenLine) : textOf (front ++ back) = textOf front ++ textOf back :=
  List.flatMap_append

theorem textOf_cons (line : BrokenLine) (rest : List BrokenLine) :
    textOf (line :: rest) = line.1 ++ line.2 ++ textOf rest := List.flatMap_cons

theorem map_fst_brokenLinesFrom (line text : List Char) :
    (brokenLinesFrom line text).map Prod.fst = splitLinesFrom line text := by
  fun_induction brokenLinesFrom line text with
  | case1 => rfl
  | case2 line filled => rw [splitLinesFrom, if_neg filled]; rfl
  | case3 line rest ih => rw [List.map_cons, ih, splitLinesFrom]
  | case4 line c rest apart breaks ih => rw [List.map_cons, ih, splitLinesFrom.eq_3 line c rest apart, if_pos breaks]
  | case5 line c rest apart plain ih => rw [ih, splitLinesFrom.eq_3 line c rest apart, if_neg plain]

theorem textOf_brokenLinesFrom (line text : List Char) : textOf (brokenLinesFrom line text) = line ++ text := by
  fun_induction brokenLinesFrom line text with
  | case1 => rfl
  | case2 line filled => simp [textOf]
  | case3 line rest ih => rw [textOf_cons, ih]; simp
  | case4 line c rest apart breaks ih => rw [textOf_cons, ih]; simp
  | case5 line c rest apart plain ih => rw [ih, List.append_assoc, List.singleton_append]

theorem textOf_brokenLines (text : List Char) : textOf (brokenLines text) = text := textOf_brokenLinesFrom [] text

theorem dropBreak_cons {c : Char} {rest : List Char} (breaks : isBreak c = true)
    (apart : ∀ more, c = '\r' → rest = '\n' :: more → False) : dropBreak (c :: rest) = rest := by
  rw [dropBreak.eq_2 _ _ apart, if_pos breaks]

variable {text : List Char} {chunks : List (List Char)}

theorem dropBreak_of_unbroken (unbroken : ∀ c ∈ text.head?, isBreak c = false) : dropBreak text = text := by
  cases text with
  | nil => rfl
  | cons c rest =>
    have plain := unbroken c rfl
    rw [dropBreak.eq_2, plain, if_neg Bool.false_ne_true]
    rintro more rfl
    exact absurd plain (by decide)

variable {line : List Char} {maxLength : Nat}

theorem broken_brokenLinesFrom (unbroken : ∀ c ∈ line, isBreak c = false) (text : List Char) :
    Broken (brokenLinesFrom line text) := by
  fun_induction brokenLinesFrom line text with
  | case1 => exact .nil
  | case2 line filled => exact .last unbroken filled
  | case3 line rest ih =>
    have breaks : ∀ c ∈ ['\r', '\n'], isBreak c = true :=
      List.forall_mem_cons.mpr ⟨by decide, List.forall_mem_singleton.mpr (by decide)⟩
    refine .cons unbroken ⟨List.cons_ne_nil _ _, breaks⟩ (fun more same => ?_) ?_
      (ih fun c member => absurd member List.not_mem_nil)
    · exact absurd (List.cons.inj same).1 (by decide)
    · rfl
  | case4 line c rest apart breaks ih =>
    refine .cons unbroken ⟨List.cons_ne_nil _ _, by simpa using breaks⟩ (fun more same => ?_) ?_
      (ih fun c member => absurd member List.not_mem_nil)
    · exact (List.cons.inj same).2.symm
    · rw [textOf_brokenLinesFrom, List.singleton_append, List.nil_append]
      exact dropBreak_cons breaks fun more => apart more
  | case5 line c rest apart plain ih =>
    refine ih fun d member => ?_
    rcases List.mem_append.mp member with before | same
    · exact unbroken d before
    · rw [List.mem_singleton.mp same]
      exact Bool.not_eq_true _ ▸ plain

theorem broken_brokenLines (text : List Char) : Broken (brokenLines text) :=
  broken_brokenLinesFrom (fun _ member => absurd member List.not_mem_nil) text

/-! ## Reading a text off its chunks -/

theorem behind_append (front back : List (List Char)) (text : List Char) :
    behind (front ++ back) text = (behind front text).bind (behind back) := by
  induction front generalizing text with
  | nil => rfl
  | cons chunk rest ih =>
    rw [List.cons_append, behind, behind]
    split
    · exact ih _
    · rfl

theorem behind_cons (chunk rest : List Char) (more : List (List Char)) :
    behind (chunk :: more) (chunk ++ rest) = behind more (dropBreak rest) := by
  rw [behind, if_pos (List.prefix_append _ _), List.drop_left]

theorem carries_append_iff {front back : List (List Char)} (more : back ≠ []) (text : List Char) :
    Carries (front ++ back) text ↔ ∃ rest, behind front text = some rest ∧ Carries back rest := by
  induction front generalizing text with
  | nil => simp [behind]
  | cons chunk rest ih =>
    obtain ⟨next, others, split⟩ : ∃ next others, rest ++ back = next :: others := by
      cases rest with
      | nil => exact List.exists_cons_of_ne_nil more
      | cons next others => exact ⟨next, others ++ back, rfl⟩
    have unfolded : Carries (chunk :: (rest ++ back)) text ↔
        ∃ left, text = chunk ++ left ∧ Carries (rest ++ back) (dropBreak left) := by
      rw [split]
      rfl
    rw [List.cons_append, unfolded]
    constructor
    · rintro ⟨left, rfl, carried⟩
      rw [behind_cons]
      exact (ih _).mp carried
    · rintro ⟨left, found, carried⟩
      rw [behind] at found
      split at found
      · next starts =>
          obtain ⟨after, rfl⟩ := starts
          rw [List.drop_left] at found
          exact ⟨after, rfl, (ih _).mpr ⟨left, found, carried⟩⟩
      · cases found

/-- A line that is cut is its first piece and the pieces of what is left. -/
theorem hardSplit_cons (positive : 0 < maxLength) (filled : line ≠ []) :
    hardSplit maxLength line = line.take maxLength :: hardSplit maxLength (line.drop maxLength) := by
  have some_char : 0 < line.length := List.length_pos_iff.mpr filled
  have count : (line.length + maxLength - 1) / maxLength =
      ((line.drop maxLength).length + maxLength - 1) / maxLength + 1 := by
    rw [List.length_drop]
    by_cases long : maxLength ≤ line.length
    · have whole : line.length + maxLength - 1 = (line.length - maxLength + maxLength - 1) + maxLength := by omega
      rw [whole, Nat.add_div_right _ positive]
    · have none : line.length - maxLength + maxLength - 1 < maxLength := by omega
      have one : line.length + maxLength - 1 = (line.length - 1) + maxLength := by omega
      rw [one, Nat.add_div_right _ positive, Nat.div_eq_of_lt none, Nat.div_eq_of_lt (by omega)]
  unfold hardSplit
  rw [count, List.range_succ_eq_map, List.map_cons, List.map_map, Nat.zero_mul, List.drop_zero]
  congr 1
  refine List.map_congr_left fun piece _ => ?_
  rw [Function.comp_apply, List.drop_drop, Nat.succ_mul, Nat.add_comm]

theorem hardSplit_nil (positive : 0 < maxLength) : hardSplit maxLength [] = [] := by
  rw [hardSplit, List.length_nil, Nat.zero_add, Nat.div_eq_of_lt (by omega)]
  rfl

/-- The pieces of a line fit, and carry it. -/
theorem hardSplit_spec (positive : 0 < maxLength) (filled : line ≠ []) (unbroken : ∀ c ∈ line, isBreak c = false)
    (rest : List Char) :
    hardSplit maxLength line ≠ [] ∧ (∀ piece ∈ hardSplit maxLength line, piece ≠ [] ∧ piece.length ≤ maxLength) ∧
      behind (hardSplit maxLength line) (line ++ rest) = some (dropBreak rest) ∧
      (Carries (hardSplit maxLength line) (line ++ rest) ↔ rest = []) := by
  induction short : line.length using Nat.strong_induction_on generalizing line with
  | _ size ih =>
    have first : line.take maxLength ≠ [] ∧ (line.take maxLength).length ≤ maxLength := by
      refine ⟨?_, List.length_take_le _ _⟩
      rw [Ne, List.take_eq_nil_iff]
      rintro (none | none)
      · omega
      · exact filled none
    have split : line ++ rest = line.take maxLength ++ (line.drop maxLength ++ rest) := by
      rw [← List.append_assoc, List.take_append_drop]
    rw [hardSplit_cons positive filled]
    refine ⟨List.cons_ne_nil _ _, ?_⟩
    by_cases left : line.drop maxLength = []
    · have all : line.take maxLength = line := by
        have whole := List.take_append_drop maxLength line
        rwa [left, List.append_nil] at whole
      rw [left, hardSplit_nil positive]
      refine ⟨List.forall_mem_singleton.mpr first, ?_, ?_⟩
      · rw [all, behind_cons]
        rfl
      · rw [all]
        exact List.append_right_eq_self
    · have fewer : (line.drop maxLength).length < size := by
        have some_char : 0 < line.length := List.length_pos_iff.mpr filled
        rw [List.length_drop]
        omega
      have later := ih _ fewer left (fun c member => unbroken c (List.mem_of_mem_drop member)) rfl
      have goes_on : dropBreak (line.drop maxLength ++ rest) = line.drop maxLength ++ rest := by
        refine dropBreak_of_unbroken fun c head => unbroken c ?_
        obtain ⟨d, others, same⟩ := List.exists_cons_of_ne_nil left
        rw [same, List.cons_append, List.head?_cons, Option.mem_some_iff] at head
        exact List.mem_of_mem_drop (by rw [same, head]; exact List.mem_cons_self)
      refine ⟨List.forall_mem_cons.mpr ⟨first, later.2.1⟩, ?_, ?_⟩
      · rw [split, behind_cons, goes_on, later.2.2.1]
      · rw [split, ← List.singleton_append, carries_append_iff later.1, behind_cons, goes_on]
        simp only [behind, Option.some.injEq, exists_eq_left']
        exact later.2.2.2

/-! ## Filling a part -/

/-- The lines of a part. -/
def joined (lines : List (List Char)) : List Char := ['\n'].intercalate lines

theorem joined_cons (line : List Char) {rest : List (List Char)} (more : rest ≠ []) :
    joined (line :: rest) = line ++ '\n' :: joined rest := by
  rw [joined, List.intercalate_cons_of_ne_nil more, List.append_assoc]
  rfl

theorem joined_concat (lines : List (List Char)) (line : List Char) :
    joined (lines ++ [line]) = if lines = [] then line else joined lines ++ '\n' :: line := by
  split
  · next none => simp [none, joined]
  · next stated =>
    rw [joined, intercalate_append stated (List.cons_ne_nil line []), List.intercalate_singleton]
    rfl

theorem joined_prefix_concat (lines : List (List Char)) (line : List Char) : joined lines <+: joined (lines ++ [line]) := by
  rw [joined_concat]
  split
  · next none => rw [none]; exact List.nil_prefix
  · exact List.prefix_append _ _

theorem joined_eq_nil {lines : List (List Char)} (stated : lines ≠ []) (empty : joined lines = []) : lines = [[]] := by
  cases lines with
  | nil => exact absurd rfl stated
  | cons line rest =>
    cases rest with
    | nil => simpa [joined] using empty
    | cons next others => simp [joined, List.intercalate] at empty

/-- The line is put behind lines that are in the part. -/
def Joins (maxLength : Nat) (chunking : Chunking) (line : List Char) : Prop :=
  chunking.lines ≠ [] ∧ chunking.length + line.length + 1 ≤ maxLength

theorem chunks_flush (chunking : Chunking) :
    chunking.flush.chunks = chunking.chunks ++ if chunking.lines = [] then [] else [joined chunking.lines] := by
  unfold Chunking.flush
  split
  · rw [List.append_nil]
  · rfl

section Lines

variable {maxLength : Nat} {chunking : Chunking} {line : List Char}

theorem addLine_of_joins (joins : Joins maxLength chunking line) : chunking.addLine maxLength line =
    ⟨chunking.chunks, chunking.lines ++ [line],
      chunking.length + line.length + if chunking.length = 0 then 0 else 1⟩ := by
  obtain ⟨stated, room⟩ := joins
  have fits : ¬ (chunking.lines ≠ [] ∧ maxLength < chunking.length + (line.length + 1)) := by omega
  have short : ¬ maxLength < line.length := by omega
  simp only [Chunking.addLine, if_neg stated, if_neg fits, if_neg short]

theorem flush_of_not_joins (apart : ¬ Joins maxLength chunking line) (short : line.length ≤ maxLength)
    (counted : chunking.lines = [] → chunking.length = 0) : chunking.addLine maxLength line =
      ⟨chunking.flush.chunks, [line], line.length⟩ := by
  unfold Joins at apart
  by_cases none : chunking.lines = []
  · simp [Chunking.addLine, Chunking.flush, none, counted none, Nat.not_lt.mpr short]
  · have full : maxLength < chunking.length + (line.length + 1) := by
      by_contra room
      exact apart ⟨none, by omega⟩
    simp [Chunking.addLine, Chunking.flush, none, full, Nat.not_lt.mpr short]

theorem addLine_of_long (long : maxLength < line.length) (counted : chunking.lines = [] → chunking.length = 0) :
    chunking.addLine maxLength line = ⟨chunking.flush.chunks ++ hardSplit maxLength line, [], 0⟩ := by
  by_cases none : chunking.lines = []
  · simp [Chunking.addLine, Chunking.flush, none, counted none, long]
  · have full : maxLength < chunking.length + (line.length + 1) := by omega
    simp [Chunking.addLine, Chunking.flush, none, full, long]

/-- What a line does to the part being filled. -/
theorem addLine_cases (maxLength : Nat) (line : List Char) (counted : chunking.lines = [] → chunking.length = 0) :
    (Joins maxLength chunking line ∧ chunking.addLine maxLength line = ⟨chunking.chunks, chunking.lines ++ [line],
      chunking.length + line.length + if chunking.length = 0 then 0 else 1⟩) ∨
    (¬ Joins maxLength chunking line ∧ line.length ≤ maxLength ∧
      chunking.addLine maxLength line = ⟨chunking.flush.chunks, [line], line.length⟩) ∨
    (¬ Joins maxLength chunking line ∧ maxLength < line.length ∧
      chunking.addLine maxLength line = ⟨chunking.flush.chunks ++ hardSplit maxLength line, [], 0⟩) := by
  by_cases joins : Joins maxLength chunking line
  · exact Or.inl ⟨joins, addLine_of_joins joins⟩
  · by_cases short : line.length ≤ maxLength
    · exact Or.inr (Or.inl ⟨joins, short, flush_of_not_joins joins short counted⟩)
    · exact Or.inr (Or.inr ⟨joins, Nat.lt_of_not_le short, addLine_of_long (Nat.lt_of_not_le short) counted⟩)

theorem counted_addLine (counted : chunking.lines = [] → chunking.length = 0) :
    (chunking.addLine maxLength line).lines = [] → (chunking.addLine maxLength line).length = 0 := by
  intro none
  rcases addLine_cases maxLength line counted with ⟨-, done⟩ | ⟨-, -, done⟩ | ⟨-, -, done⟩
  · rw [done] at none
    simp at none
  · rw [done] at none
    simp at none
  · rw [done]

end Lines

/-- The chunks that are done stay, and the lines being filled are sent at the front of the next one. -/
theorem chunks_kept (maxLength : Nat) {chunking : Chunking} (counted : chunking.lines = [] → chunking.length = 0)
    (lines : List (List Char)) :
    chunking.chunks <+: (lines.foldl (Chunking.addLine maxLength) chunking).flush.chunks ∧
      (chunking.lines ≠ [] → ∃ chunk rest, (lines.foldl (Chunking.addLine maxLength) chunking).flush.chunks =
        chunking.chunks ++ chunk :: rest ∧ joined chunking.lines <+: chunk) := by
  induction lines generalizing chunking with
  | nil =>
    rw [List.foldl_nil, chunks_flush]
    refine ⟨List.prefix_append _ _, fun stated => ⟨joined chunking.lines, [], ?_, List.prefix_rfl⟩⟩
    rw [if_neg stated]
  | cons line rest ih =>
    rw [List.foldl_cons]
    have later := ih (@counted_addLine maxLength chunking line counted)
    have flushed : chunking.flush.chunks <+: (rest.foldl (Chunking.addLine maxLength)
        (chunking.addLine maxLength line)).flush.chunks →
        chunking.chunks <+: (rest.foldl (Chunking.addLine maxLength)
          (chunking.addLine maxLength line)).flush.chunks ∧
        (chunking.lines ≠ [] → ∃ chunk more, (rest.foldl (Chunking.addLine maxLength)
          (chunking.addLine maxLength line)).flush.chunks = chunking.chunks ++ chunk :: more ∧
            joined chunking.lines <+: chunk) := by
      intro kept
      rw [chunks_flush] at kept
      refine ⟨(List.prefix_append _ _).trans kept, fun stated => ?_⟩
      rw [if_neg stated] at kept
      obtain ⟨more, whole⟩ := kept
      exact ⟨joined chunking.lines, more, by rw [← whole, List.append_assoc]; rfl, List.prefix_rfl⟩
    rcases addLine_cases maxLength line counted with ⟨joins, done⟩ | ⟨-, -, done⟩ | ⟨-, -, done⟩
    · rw [done] at later ⊢
      obtain ⟨chunk, more, whole, starts⟩ := later.2 (by simp)
      exact ⟨later.1, fun _ => ⟨chunk, more, whole, (joined_prefix_concat _ _).trans starts⟩⟩
    · refine flushed ?_
      rw [done] at later ⊢
      exact later.1
    · refine flushed ?_
      rw [done] at later ⊢
      exact (List.prefix_append _ _).trans later.1

/-! ## Where a part stands in the text -/

section Text

variable (maxLength : Nat) (text : List Char)

/-- The part being filled once the lines in front were added. -/
def filled (front : List BrokenLine) : Chunking :=
  (front.map Prod.fst).foldl (Chunking.addLine maxLength) ⟨[], [], 0⟩

/-- No chunk is empty, none is too long, and in order they carry the text. -/
structure Sent (chunks : List (List Char)) : Prop where
  stated : ∀ chunk ∈ chunks, chunk ≠ []
  short : ∀ chunk ∈ chunks, chunk.length ≤ maxLength
  carries : Carries chunks text

/-- The text is not empty and does not end in a line break; a break between two lines of one part is a plain
one; a line that is put behind others by the count has room there; and a blank line that begins a part
is not left alone in it. -/
structure Splits : Prop where
  stated : text ≠ []
  unended : ∀ c ∈ text.getLast?, isBreak c = false
  plain : ∀ front line next back, brokenLines text = front ++ line :: next :: back →
    Joins maxLength (filled maxLength (front ++ [line])) next.1 → line.2 = ['\n']
  room : ∀ front line back, brokenLines text = front ++ line :: back → Joins maxLength (filled maxLength front) line.1 →
    (joined (filled maxLength front).lines).length + line.1.length + 1 ≤ maxLength
  accompanied : ∀ front line back, brokenLines text = front ++ line :: back → (filled maxLength front).lines = [[]] →
    Joins maxLength (filled maxLength front) line.1
  unfinished : (filled maxLength (brokenLines text)).lines ≠ [[]]

structure Filling (front back current : List BrokenLine) : Prop where
  latest : current <:+ front
  lines : (filled maxLength front).lines = current.map Prod.fst
  inner : ∀ line ∈ current.dropLast, line.2 = ['\n']
  left : behind (filled maxLength front).chunks text = some (textOf (current ++ back))

end Text

section Run

variable {maxLength : Nat} {text : List Char} {front back current : List BrokenLine} {line : BrokenLine}

theorem filled_concat (front : List BrokenLine) (line : BrokenLine) :
    filled maxLength (front ++ [line]) = (filled maxLength front).addLine maxLength line.1 := by
  rw [filled, List.map_append, List.foldl_append]
  rfl

theorem counted_filled (maxLength : Nat) (front : List BrokenLine) :
    (filled maxLength front).lines = [] → (filled maxLength front).length = 0 := by
  induction front using List.reverseRecOn with
  | nil => exact fun _ => rfl
  | append_singleton front line ih =>
    rw [filled_concat]
    exact counted_addLine ih

theorem filled_append (maxLength : Nat) (front back : List BrokenLine) : filled maxLength (front ++ back) =
    (back.map Prod.fst).foldl (Chunking.addLine maxLength) (filled maxLength front) := by
  rw [filled, List.map_append, List.foldl_append]
  rfl

theorem textOf_concat {init : List BrokenLine} (inner : ∀ other ∈ init, other.2 = ['\n']) (line : BrokenLine) :
    textOf (init ++ [line]) = joined ((init ++ [line]).map Prod.fst) ++ line.2 := by
  induction init with
  | nil => simp [textOf, joined]
  | cons first rest ih =>
    obtain ⟨head, later⟩ := List.forall_mem_cons.mp inner
    rw [List.cons_append, textOf_cons, ih later, head, List.map_cons, joined_cons _ (by simp)]
    simp

theorem Broken.append_right (broken : Broken (front ++ back)) : Broken back := by
  induction front with
  | nil => exact broken
  | cons first rest ih =>
    refine ih ?_
    rw [List.cons_append] at broken
    generalize rest ++ back = later at broken
    cases broken with
    | last => exact .nil
    | cons _ _ _ _ later => exact later

theorem Broken.unbroken (broken : Broken (line :: back)) : ∀ c ∈ line.1, isBreak c = false := by
  cases broken with
  | last unbroken => exact unbroken
  | cons unbroken => exact unbroken

theorem Broken.dropped (broken : Broken (line :: back)) : dropBreak (line.2 ++ textOf back) = textOf back := by
  cases broken with
  | last => rfl
  | cons _ _ _ dropped => exact dropped

theorem Broken.ending {next : BrokenLine} (broken : Broken (line :: next :: back)) :
    line.2 ≠ [] ∧ ∀ more, line.2 = '\n' :: more → more = [] := by
  cases broken with
  | cons _ breaks plain => exact ⟨breaks.1, plain⟩

/-- A text ends in no line break exactly when its last line goes without. -/
theorem unended_iff (broken : Broken (front ++ [line])) :
    (∀ c ∈ (textOf (front ++ [line])).getLast?, isBreak c = false) ↔ line.2 = [] := by
  rw [textOf_append, textOf_cons]
  cases broken.append_right with
  | @last line unbroken filled =>
    refine iff_of_true (fun c last => unbroken c ?_) rfl
    simp only [textOf_nil, List.append_nil, List.getLast?_append_of_ne_nil _ filled] at last
    exact List.mem_of_getLast? last
  | @cons line ending rest unbroken breaks =>
    refine iff_of_false (fun plain => ?_) breaks.1
    have last : ending.getLast breaks.1 ∈ (textOf front ++ (line ++ ending ++ textOf [])).getLast? := by
      rw [textOf_nil, List.append_nil, ← List.append_assoc, List.getLast?_append_of_ne_nil _ breaks.1,
        List.getLast?_eq_getLast_of_ne_nil breaks.1]
      rfl
    have broke := breaks.2 _ (List.getLast_mem breaks.1)
    rw [plain _ last] at broke
    cases broke

/-- What is behind the chunks once the part is sent. -/
theorem Filling.flushed (filling : Filling maxLength text front (line :: back) current)
    (broken : Broken (front ++ line :: back)) :
    behind (filled maxLength front).flush.chunks text = some (textOf (line :: back)) := by
  rw [chunks_flush, filling.lines, behind_append, filling.left, Option.bind_some]
  rcases List.eq_nil_or_concat' current with rfl | ⟨init, last, rfl⟩
  · rfl
  · have inner : ∀ other ∈ init, other.2 = ['\n'] := fun other member => filling.inner other (by simpa using member)
    obtain ⟨gone, rfl⟩ := filling.latest
    have ends : dropBreak (last.2 ++ textOf (line :: back)) = textOf (line :: back) := by
      refine @Broken.dropped _ last (@Broken.append_right (gone ++ init) _ ?_)
      simpa using broken
    rw [if_neg (by simp), textOf_append, textOf_concat inner, List.append_assoc, behind_cons, ends]
    rfl

/-- Every line a next one joins goes with a plain break. -/
theorem Filling.plain (filling : Filling maxLength text front back current)
    (latest : ∀ last ∈ current.getLast?, last.2 = ['\n']) : ∀ other ∈ current, other.2 = ['\n'] := by
  intro other member
  rcases List.eq_nil_or_concat' current with rfl | ⟨init, last, rfl⟩
  · cases member
  · rcases List.mem_append.mp member with before | same
    · exact filling.inner other (by simpa using before)
    · rw [List.mem_singleton.mp same]
      exact latest last (by simp)

/-- One more line. -/
theorem Filling.step (positive : 0 < maxLength) (filling : Filling maxLength text front (line :: back) current)
    (broken : Broken (front ++ line :: back))
    (plain : Joins maxLength (filled maxLength front) line.1 → ∀ last ∈ current.getLast?, last.2 = ['\n']) :
    ∃ next, Filling maxLength text (front ++ [line]) back next := by
  have flushed := filling.flushed broken
  have done : filled maxLength (front ++ [line]) = _ := filled_concat front line
  rcases addLine_cases maxLength line.1 (counted_filled maxLength front) with
    ⟨joins, added⟩ | ⟨-, -, added⟩ | ⟨-, long, added⟩
  · rw [added] at done
    refine ⟨current ++ [line], ?_, ?_, fun other member => ?_, ?_⟩
    · obtain ⟨gone, rfl⟩ := filling.latest
      exact ⟨gone, (List.append_assoc _ _ _).symm⟩
    · rw [done, filling.lines, List.map_append]
      rfl
    · rw [List.dropLast_concat] at member
      exact filling.plain (plain joins) other member
    · rw [done, filling.left, List.append_assoc]
      rfl
  · rw [added] at done
    refine ⟨[line], List.suffix_append _ _, by rw [done]; rfl, fun other member => ?_, ?_⟩
    · cases member
    · rw [done, flushed]
      rfl
  · rw [added] at done
    have filledLine : line.1 ≠ [] := List.ne_nil_of_length_pos (by omega)
    refine ⟨[], List.nil_suffix, by rw [done]; rfl, fun other member => ?_, ?_⟩
    · cases member
    · rw [done, behind_append, flushed, Option.bind_some, textOf_cons, List.append_assoc,
        (hardSplit_spec positive filledLine broken.append_right.unbroken _).2.2.1, broken.append_right.dropped]
      rfl

/-- The last chunks carry what is left of the text where the last line goes without a break. -/
theorem Filling.carries_iff (positive : 0 < maxLength) (filling : Filling maxLength text front [line] current)
    (broken : Broken (front ++ [line]))
    (plain : Joins maxLength (filled maxLength front) line.1 → ∀ last ∈ current.getLast?, last.2 = ['\n']) :
    Carries (filled maxLength (front ++ [line])).flush.chunks text ↔ line.2 = [] := by
  have flushed := filling.flushed broken
  rw [chunks_flush, filled_concat]
  rcases addLine_cases maxLength line.1 (counted_filled maxLength front) with
    ⟨joins, added⟩ | ⟨-, -, added⟩ | ⟨-, long, added⟩
  · have whole := textOf_concat (filling.plain (plain joins)) line
    rw [List.map_append, ← filling.lines] at whole
    have stated : (filled maxLength front).lines ++ [line.1] ≠ [] := by simp
    rw [added, if_neg stated, carries_append_iff (List.cons_ne_nil _ _), filling.left, whole]
    simp only [Option.some.injEq, exists_eq_left']
    exact List.append_right_eq_self
  · have alone : joined [line.1] = line.1 := by simp [joined]
    rw [added, if_neg (List.cons_ne_nil _ _), alone, carries_append_iff (List.cons_ne_nil _ _), flushed]
    simp only [Option.some.injEq, exists_eq_left']
    rw [textOf_cons, textOf_nil, List.append_nil]
    exact List.append_right_eq_self
  · have filledLine : line.1 ≠ [] := List.ne_nil_of_length_pos (by omega)
    have pieces := hardSplit_spec positive filledLine broken.append_right.unbroken line.2
    rw [added, if_pos rfl, List.append_nil, carries_append_iff pieces.1, flushed]
    simp only [Option.some.injEq, exists_eq_left']
    rw [textOf_cons, textOf_nil, List.append_nil]
    exact pieces.2.2.2

end Run

/-! ## What is sent -/

section Sending

variable {maxLength : Nat} {text : List Char} {front back current : List BrokenLine} {line : BrokenLine}

/-- A chunk that is followed by others, or is the last, is at the front of the text it carries. -/
theorem prefix_of_carries {chunk : List Char} {rest : List (List Char)} (carried : Carries (chunk :: rest) text) :
    chunk <+: text := by
  cases rest with
  | nil => exact (show text = chunk from carried) ▸ List.prefix_rfl
  | cons next others =>
    obtain ⟨left, rfl, -⟩ := carried
    exact List.prefix_append _ _

/-- The chunks once every line was added. -/
theorem chunks_after_concat (front back : List BrokenLine) (line : BrokenLine)
    (joins : Joins maxLength (filled maxLength front) line.1) :
    ∃ chunk rest, (filled maxLength (front ++ line :: back)).flush.chunks =
      (filled maxLength front).chunks ++ chunk :: rest ∧
        joined ((filled maxLength front).lines ++ [line.1]) <+: chunk := by
  have added := (filled_concat front line).trans (addLine_of_joins joins)
  have kept := (chunks_kept maxLength (counted_filled maxLength (front ++ [line])) (back.map Prod.fst)).2
  rw [added] at kept
  rw [List.append_cons, filled_append, added]
  exact kept (by simp)

/-- A line that joins others in a chunk that is carried comes after a plain break. -/
theorem Filling.plain_of_carries (filling : Filling maxLength text front (line :: back) current)
    (broken : Broken (front ++ line :: back))
    (carried : Carries (filled maxLength (front ++ line :: back)).flush.chunks text)
    (joins : Joins maxLength (filled maxLength front) line.1) : ∀ last ∈ current.getLast?, last.2 = ['\n'] := by
  rcases List.eq_nil_or_concat' current with rfl | ⟨init, last, rfl⟩
  · exact fun last none => absurd none (by simp)
  · have inner : ∀ other ∈ init, other.2 = ['\n'] := fun other member => filling.inner other (by simpa using member)
    obtain ⟨gone, rfl⟩ := filling.latest
    have breaks : last.2 ≠ [] ∧ ∀ more, last.2 = '\n' :: more → more = [] := by
      refine @Broken.ending back last line (@Broken.append_right (gone ++ init) _ ?_)
      simpa using broken
    obtain ⟨chunk, rest, whole, starts⟩ := chunks_after_concat _ back line joins
    rw [whole, carries_append_iff (List.cons_ne_nil _ _), filling.left] at carried
    simp only [Option.some.injEq, exists_eq_left'] at carried
    have within := starts.trans (prefix_of_carries carried)
    rw [joined_concat, if_neg joins.1, filling.lines, textOf_append, textOf_concat inner, List.append_assoc,
      List.prefix_append_right_inj] at within
    obtain ⟨c, more, same⟩ := List.exists_cons_of_ne_nil breaks.1
    rw [same, List.cons_append, List.cons_prefix_cons] at within
    rw [← within.1] at same
    intro found member
    rw [List.getLast?_concat, Option.mem_some_iff] at member
    rw [← member, same, breaks.2 more same]

theorem filling_of_carries (positive : 0 < maxLength) (broken : Broken (front ++ back))
    (text_eq : textOf (front ++ back) = text)
    (carried : Carries (filled maxLength (front ++ back)).flush.chunks text) :
    ∃ current, Filling maxLength text front back current := by
  induction front using List.reverseRecOn generalizing back with
  | nil => exact ⟨[], List.nil_suffix, rfl, fun other member => absurd member List.not_mem_nil, by simp [← text_eq]; rfl⟩
  | append_singleton front line ih =>
    rw [List.append_assoc] at broken text_eq carried
    obtain ⟨current, filling⟩ := ih broken text_eq carried
    exact filling.step positive broken (filling.plain_of_carries broken carried)

theorem Filling.last_eq (filling : Filling maxLength text (front ++ [line]) back current)
    (stated : (filled maxLength (front ++ [line])).lines ≠ []) : line ∈ current.getLast? := by
  rw [filling.lines] at stated
  rcases List.eq_nil_or_concat' current with rfl | ⟨init, last, rfl⟩
  · exact absurd rfl stated
  · obtain ⟨gone, same⟩ := filling.latest
    rw [← List.append_assoc] at same
    rw [List.getLast?_concat, List.append_inj_right' same rfl |> List.singleton_inj.mp]
    rfl

/-- The chunks that are done and the lines being filled keep to the limit, and no chunk is empty. -/
def Fits (maxLength : Nat) (chunking : Chunking) : Prop :=
  (∀ chunk ∈ chunking.chunks, chunk ≠ [] ∧ chunk.length ≤ maxLength) ∧ (joined chunking.lines).length ≤ maxLength

theorem Fits.flush {chunking : Chunking} (fits : Fits maxLength chunking) (accompanied : chunking.lines ≠ [[]]) :
    ∀ chunk ∈ chunking.flush.chunks, chunk ≠ [] ∧ chunk.length ≤ maxLength := by
  intro chunk member
  rw [chunks_flush] at member
  rcases List.mem_append.mp member with done | last
  · exact fits.1 chunk done
  · split at last
    · cases last
    · next stated =>
        rw [List.mem_singleton.mp last]
        exact ⟨fun empty => accompanied (joined_eq_nil stated empty), fits.2⟩

theorem Splits.fits (positive : 0 < maxLength) (splits : Splits maxLength text)
    (lines_eq : brokenLines text = front ++ back) : Fits maxLength (filled maxLength front) := by
  induction front using List.reverseRecOn generalizing back with
  | nil => exact ⟨fun chunk none => absurd none List.not_mem_nil, Nat.zero_le _⟩
  | append_singleton front line ih =>
    rw [List.append_assoc, List.singleton_append] at lines_eq
    have fits := ih lines_eq
    have flushed : ¬ Joins maxLength (filled maxLength front) line.1 →
        ∀ chunk ∈ (filled maxLength front).flush.chunks, chunk ≠ [] ∧ chunk.length ≤ maxLength :=
      fun apart => fits.flush fun alone => apart (splits.accompanied front line back lines_eq alone)
    rw [filled_concat]
    rcases addLine_cases maxLength line.1 (counted_filled maxLength front) with
      ⟨joins, added⟩ | ⟨apart, short, added⟩ | ⟨apart, long, added⟩
    · rw [added]
      refine ⟨fits.1, ?_⟩
      have room := splits.room front line back lines_eq joins
      rw [joined_concat, if_neg joins.1, List.length_append, List.length_cons]
      exact room
    · rw [added]
      refine ⟨flushed apart, ?_⟩
      simpa [joined] using short
    · rw [added]
      have filledLine : line.1 ≠ [] := List.ne_nil_of_length_pos (by omega)
      have unbroken := (lines_eq ▸ broken_brokenLines text).append_right.unbroken
      have pieces := (hardSplit_spec positive filledLine unbroken []).2.1
      exact ⟨List.forall_mem_append.mpr ⟨flushed apart, pieces⟩, Nat.zero_le _⟩

theorem Splits.plain_last (splits : Splits maxLength text) (lines_eq : brokenLines text = front ++ line :: back)
    (filling : Filling maxLength text front (line :: back) current)
    (joins : Joins maxLength (filled maxLength front) line.1) : ∀ last ∈ current.getLast?, last.2 = ['\n'] := by
  intro last found
  rcases List.eq_nil_or_concat' front with rfl | ⟨init, before, rfl⟩
  · exact absurd rfl joins.1
  · have same := filling.last_eq joins.1
    rw [Option.mem_unique found same]
    refine splits.plain init before line back ?_ joins
    rw [lines_eq, List.append_assoc]
    rfl

theorem Splits.filling (positive : 0 < maxLength) (splits : Splits maxLength text)
    (lines_eq : brokenLines text = front ++ back) : ∃ current, Filling maxLength text front back current := by
  induction front using List.reverseRecOn generalizing back with
  | nil =>
    refine ⟨[], List.nil_suffix, rfl, fun other member => absurd member List.not_mem_nil, ?_⟩
    rw [List.nil_append, ← List.nil_append back, ← lines_eq, textOf_brokenLines]
    rfl
  | append_singleton front line ih =>
    rw [List.append_assoc, List.singleton_append] at lines_eq
    obtain ⟨current, filling⟩ := ih lines_eq
    exact filling.step positive (lines_eq ▸ broken_brokenLines text) (splits.plain_last lines_eq filling)

/-- The chunks once every line of the text was added. -/
theorem splitTextByLines_eq (maxLength : Nat) (text : List Char) : splitTextByLines maxLength text =
    if (filled maxLength (brokenLines text)).flush.chunks = [] then [[]]
    else (filled maxLength (brokenLines text)).flush.chunks := by
  rw [filled, brokenLines, map_fst_brokenLinesFrom]
  rfl

theorem brokenLines_ne_nil (stated : text ≠ []) : ∃ front line, brokenLines text = front ++ [line] := by
  rcases List.eq_nil_or_concat' (brokenLines text) with none | some
  · rw [← textOf_brokenLines text, none] at stated
    exact absurd rfl stated
  · exact some

theorem sent_of_splits (positive : 0 < maxLength) (splits : Splits maxLength text) :
    Sent maxLength text (filled maxLength (brokenLines text)).flush.chunks := by
  have fits := (splits.fits positive (List.append_nil (brokenLines text)).symm).flush splits.unfinished
  refine ⟨fun chunk member => (fits chunk member).1, fun chunk member => (fits chunk member).2, ?_⟩
  obtain ⟨front, line, lines_eq⟩ := brokenLines_ne_nil splits.stated
  have broken := lines_eq ▸ broken_brokenLines text
  have unended := splits.unended
  rw [← textOf_brokenLines text, lines_eq, unended_iff broken] at unended
  obtain ⟨current, filling⟩ := splits.filling positive lines_eq
  rw [lines_eq]
  exact (filling.carries_iff positive broken (splits.plain_last lines_eq filling)).mpr unended

theorem splits_of_sent (positive : 0 < maxLength) (stated : text ≠ [])
    (sent : Sent maxLength text (filled maxLength (brokenLines text)).flush.chunks) : Splits maxLength text := by
  have filling : ∀ {front back}, brokenLines text = front ++ back → ∃ current, Filling maxLength text front back current :=
    fun lines_eq => filling_of_carries positive (lines_eq ▸ broken_brokenLines text)
      (lines_eq ▸ textOf_brokenLines text) (lines_eq ▸ sent.carries)
  refine ⟨stated, ?_, fun front line next back lines_eq joins => ?_, fun front line back lines_eq joins => ?_,
    fun front line back lines_eq alone => ?_, fun alone => ?_⟩
  · obtain ⟨front, line, lines_eq⟩ := brokenLines_ne_nil stated
    have broken := lines_eq ▸ broken_brokenLines text
    obtain ⟨current, filling⟩ := filling lines_eq
    rw [← textOf_brokenLines text, lines_eq, unended_iff broken]
    refine (filling.carries_iff positive broken (filling.plain_of_carries broken ?_)).mp ?_
    · exact lines_eq ▸ sent.carries
    · exact lines_eq ▸ sent.carries
  · rw [List.append_cons] at lines_eq
    obtain ⟨current, filling⟩ := filling lines_eq
    refine filling.plain_of_carries (lines_eq ▸ broken_brokenLines text) ?_ joins line (filling.last_eq joins.1)
    exact lines_eq ▸ sent.carries
  · obtain ⟨chunk, rest, whole, starts⟩ := chunks_after_concat front back line joins
    have short := sent.short chunk (by rw [lines_eq, whole]; simp)
    have room := starts.length_le.trans short
    rwa [joined_concat, if_neg joins.1, List.length_append, List.length_cons] at room
  · by_contra apart
    have alone_sent : [] ∈ (filled maxLength front).flush.chunks := by
      rw [chunks_flush, alone]
      simp [joined]
    have kept := (chunks_kept maxLength (counted_filled maxLength (front ++ [line])) (back.map Prod.fst)).1
    rw [← filled_append, ← List.append_cons, ← lines_eq] at kept
    refine sent.stated [] (kept.subset ?_) rfl
    rw [filled_concat]
    rcases addLine_cases maxLength line.1 (counted_filled maxLength front) with
      ⟨joins, -⟩ | ⟨-, -, added⟩ | ⟨-, -, added⟩
    · exact absurd joins apart
    · rw [added]
      exact alone_sent
    · rw [added]
      exact List.mem_append_left _ alone_sent
  · refine sent.stated [] ?_ rfl
    rw [chunks_flush, alone]
    simp [joined]

/-- The parts of a text keep to the limit and carry the text exactly where the lines leave room for their breaks. -/
theorem sent_splitTextByLines_iff (positive : 0 < maxLength) (text : List Char) :
    Sent maxLength text (splitTextByLines maxLength text) ↔ Splits maxLength text := by
  rw [splitTextByLines_eq]
  constructor
  · intro sent
    split at sent
    · exact absurd rfl (sent.stated [] (List.mem_singleton_self _))
    · next some_chunk =>
        refine splits_of_sent positive ?_ sent
        rintro rfl
        exact some_chunk rfl
  · intro splits
    have sent := sent_of_splits positive splits
    rw [if_neg]
    · exact sent
    · intro none
      have carried := sent.carries
      rw [none] at carried
      exact splits.stated carried

end Sending

/-! ## Messages -/

/-- The parts of a message, each behind its marker. -/
def marked (chunks : List (List Char)) : List String :=
  chunks.mapIdx fun index chunk =>
    "[part " ++ toString (index + 1) ++ "/" ++ toString chunks.length ++ "]\n" ++ String.ofList chunk

/-- `split_telegram_message` with any limit. -/
def splitTelegramMessageWithin (maxLength : Nat) (text : String) : Except String (List String) :=
  let cleanText := strip text
  if cleanText.length ≤ maxLength then .ok [cleanText]
  -- A limit below the marker's room is negative behind it: no line fits, and none has a piece.
  else if maxLength < partMarkerRoom then .ok (marked [[]])
  -- A text that is stripped begins with a line that has something in it.
  else if maxLength = partMarkerRoom then .error "range() arg 3 must not be zero"
  else .ok (marked (splitTextByLines (maxLength - partMarkerRoom) cleanText.toList))

/-- No message is empty, none is too long, and they carry the text, the parts behind their markers. -/
structure Delivered (maxLength : Nat) (text : String) (messages : List String) : Prop where
  stated : ∀ message ∈ messages, message ≠ ""
  short : ∀ message ∈ messages, message.length ≤ maxLength
  carries : messages = [text] ∨ ∃ chunks, messages = marked chunks ∧ Carries chunks text.toList

theorem length_dropBreak_le (text : List Char) : (dropBreak text).length ≤ text.length := by
  unfold dropBreak
  split
  · exact Nat.le_add_right _ 2
  · split
    · exact Nat.le_succ _
    · exact Nat.le_refl _
  · exact Nat.le_refl _

/-- There are no more chunks than characters. -/
theorem length_le_of_carries (stated : ∀ chunk ∈ chunks, chunk ≠ []) (carried : Carries chunks text) :
    chunks.length ≤ text.length := by
  induction chunks generalizing text with
  | nil => exact Nat.zero_le _
  | cons chunk rest ih =>
    obtain ⟨first, others⟩ := List.forall_mem_cons.mp stated
    have some_char : 0 < chunk.length := List.length_pos_iff.mpr first
    cases rest with
    | nil =>
      rw [show text = chunk from carried]
      exact some_char
    | cons next more =>
      obtain ⟨left, rfl, carried⟩ := carried
      have counted := ih others carried
      have shorter := length_dropBreak_le left
      rw [List.length_cons, List.length_append]
      omega

theorem mem_marked (few : chunks.length < 10 ^ 35) {message : String} (member : message ∈ marked chunks) :
    ∃ chunk ∈ chunks,
      message ≠ "" ∧ message.length ≤ chunk.length + partMarkerRoom := by
  obtain ⟨index, bound, rfl⟩ := List.mem_mapIdx.mp member
  refine ⟨chunks[index], List.getElem_mem bound, fun empty => ?_, ?_⟩
  · have none := congrArg String.length empty
    simp at none
  · have part : (toString (index + 1)).length ≤ 35 := (Nat.length_repr_le_iff (by decide)).mpr (by omega)
    have parts : (toString chunks.length).length ≤ 35 := (Nat.length_repr_le_iff (by decide)).mpr few
    have opening : ("[part ".length, "/".length, "]\n".length) = (6, 1, 2) := by decide
    simp only [Prod.mk.injEq] at opening
    rw [String.length_append, String.length_append, String.length_append, String.length_append, String.length_append,
      opening.1, opening.2.1, opening.2.2, String.length_ofList, partMarkerRoom]
    omega

/-- Where the lines leave room for their breaks, the messages carry the text within the limit. -/
theorem delivered_of_splits {text : String} (stated : text ≠ "") (stripped : strip text = text)
    (room : text.length ≤ maxLength ∨
      partMarkerRoom < maxLength ∧ Splits (maxLength - partMarkerRoom) text.toList ∧ text.length < 10 ^ 35) :
    ∃ messages, splitTelegramMessageWithin maxLength text = .ok messages ∧ Delivered maxLength text messages := by
  unfold splitTelegramMessageWithin
  dsimp only
  rw [stripped]
  by_cases fits : text.length ≤ maxLength
  · rw [if_pos fits]
    refine ⟨[text], rfl, ?_, ?_, Or.inl rfl⟩
    · exact List.forall_mem_singleton.mpr stated
    · exact List.forall_mem_singleton.mpr fits
  · obtain ⟨above, splits, few⟩ := room.resolve_left fits
    have sent := (sent_splitTextByLines_iff (Nat.sub_pos_of_lt above) text.toList).mpr splits
    have counted := length_le_of_carries sent.stated sent.carries
    rw [String.length_toList] at counted
    rw [if_neg fits, if_neg (Nat.lt_asymm above), if_neg (Nat.ne_of_gt above)]
    refine ⟨_, rfl, fun message member => ?_, fun message member => ?_, Or.inr ⟨_, rfl, sent.carries⟩⟩
    · obtain ⟨chunk, -, filled, -⟩ := mem_marked (Nat.lt_of_le_of_lt counted few) member
      exact filled
    · obtain ⟨chunk, among, -, short⟩ := mem_marked (Nat.lt_of_le_of_lt counted few) member
      have within := sent.short chunk among
      omega

/-- The parts of a text keep to the limit and carry the text exactly where the lines leave room for their breaks,
and so do the messages where the lines leave the marker its room too. -/
theorem parts_sent_iff {maxLength : Nat} (positive : 0 < maxLength) (text : String) :
    (Sent maxLength text.toList (splitTextByLines maxLength text.toList) ↔ Splits maxLength text.toList) ∧
      (text ≠ "" → strip text = text → (text.length ≤ maxLength ∨
        partMarkerRoom < maxLength ∧ Splits (maxLength - partMarkerRoom) text.toList ∧ text.length < 10 ^ 35) →
          ∃ messages, splitTelegramMessageWithin maxLength text = .ok messages ∧ Delivered maxLength text messages) :=
  ⟨sent_splitTextByLines_iff positive text.toList, delivered_of_splits⟩

/-- Three lines of forty characters, too many for a message of 120. -/
def threeLines : List (List Char) := ['a', 'b', 'c'].map (List.replicate 40)

theorem parts_sent_marked :
    let text := String.ofList (['\n'].intercalate threeLines)
    120 < text.length ∧ splitTextByLines 40 text.toList = threeLines ∧ Splits 40 text.toList ∧
      ∃ messages, splitTelegramMessageWithin 120 text = .ok messages ∧ Delivered 120 text messages := by
  intro text
  have split : splitTextByLines 40 text.toList = threeLines := by decide +kernel
  have splits : Splits 40 text.toList := by
    refine (parts_sent_iff (by decide) text).1.mp ?_
    rw [split]
    exact ⟨by decide, by decide, '\n' :: ['\n'].intercalate threeLines.tail, by decide +kernel,
      '\n' :: ['\n'].intercalate threeLines.tail.tail, by decide +kernel,
      show dropBreak _ = _ by decide +kernel⟩
  exact ⟨by decide +kernel, split, splits, (parts_sent_iff (by decide) text).2 (by decide +kernel) (by decide +kernel)
    (Or.inr ⟨by decide, splits, by decide +kernel⟩)⟩

/-- The break behind the blank line at the front is not counted. -/
theorem blank_front_uncounted : splitTextByLines 4 "\nabc\n\nx".toList = ["\nabc\n".toList, "x".toList] ∧
    ¬ Sent 4 "\nabc\n\nx".toList (splitTextByLines 4 "\nabc\n\nx".toList) := by
  have split : splitTextByLines 4 "\nabc\n\nx".toList = ["\nabc\n".toList, "x".toList] := by decide
  refine ⟨split, fun sent => ?_⟩
  rw [split] at sent
  exact absurd (sent.short _ List.mem_cons_self) (by decide)

end DbaBrain.Telegram.MessageParts
