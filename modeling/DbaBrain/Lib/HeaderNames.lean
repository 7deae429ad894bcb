import DbaBrain.Foundation.CodePoints
import DbaBrain.Foundation.Dict
import DbaBrain.Foundation.Occurrences

/-!
# Column names out of a header row

A cell becomes a name: its words with one blank between, `column_<n>` where it has
none, cut at the longest name.  A name whose lower case came before gets a number
behind it.  The number is not looked up among the other names, and the name is not
cut again, so a numbered name may repeat another column's or be too long.
-/

namespace DbaBrain.Lib.HeaderNames

open DbaBrain.Foundation

/-! ## The names -/

/-- `" ".join(cell.split()).strip()`. -/
def spaced (cell : Str) : Str :=
  Str.strip ([CodePoint.char ' '].intercalate ((cell.splitOnP CodePoint.isSpace).filter fun word => word ≠ []))

def maxName : Nat := 128

def digits (number : Nat) : Str := (Nat.toDigits 10 number).map .char

def stated (position : Nat) (cell : Str) : Str :=
  if spaced cell = [] then str "column_" ++ digits position else spaced cell

/-- What a column is headed, before the names are compared. -/
def heading (position : Nat) (cell : Str) : Str :=
  if maxName < (stated position cell).length then (stated position cell).take maxName else stated position cell

def headingsFrom : Nat → List Str → List Str
  | _, [] => []
  | position, cell :: rest => heading position cell :: headingsFrom (position + 1) rest

def headings (raw : List Str) : List Str := headingsFrom 1 raw

/-- `f"{name}_{number}"`. -/
def suffixed (name : Str) (number : Nat) : Str := name ++ .char '_' :: digits number

section Names

/-! `lower` is Python's `str.lower`. -/

variable (lower : Str → Str)

def namesFrom : Nat → Dict Str Nat → List Str → List Str
  | _, _, [] => []
  | position, seen, cell :: rest =>
      let name := heading position cell
      match seen.get? (lower name) with
      | some count => suffixed name (count + 1) :: namesFrom (position + 1) (seen.set (lower name) (count + 1)) rest
      | none => name :: namesFrom (position + 1) (seen.set (lower name) 1) rest

def headerNames (raw : List Str) : List Str := namesFrom lower 1 Dict.empty raw

/-- A heading as its column is named, by its number among the headings of one lower case. -/
def named (entry : Str × Nat) : Str := if entry.2 = 1 then entry.1 else suffixed entry.1 entry.2

/-- The counter of a key stands at how often it was seen. -/
def Counts (seen : Dict Str Nat) (keys : List Str) : Prop :=
  ∀ key, seen.get? key = if keys.count key = 0 then none else some (keys.count key)

variable {lower}
variable {seen : Dict Str Nat} {keys : List Str}

theorem Counts.set (counts : Counts seen keys) (key : Str) :
    Counts (seen.set key (keys.count key + 1)) (key :: keys) := by
  intro other
  rw [Dict.get?_set, List.count_cons]
  by_cases same : other = key
  · subst same
    simp
  · rw [if_neg same, counts other]
    simp [Ne.symm same]

theorem namesFrom_eq (position : Nat) (counts : Counts seen keys) (raw : List Str) : namesFrom lower position seen raw =
      (Occurrences.numberedFrom lower keys (headingsFrom position raw)).map named := by
  induction raw generalizing position seen keys with
  | nil => rfl
  | cons cell rest ih =>
    have later := counts.set (lower (heading position cell))
    rw [namesFrom, headingsFrom, Occurrences.numberedFrom, List.map_cons]
    have held := counts (lower (heading position cell))
    by_cases fresh : keys.count (lower (heading position cell)) = 0
    · rw [if_pos fresh] at held
      rw [fresh] at later ⊢
      simp only [held]
      rw [ih (position + 1) later, named, if_pos rfl]
    · rw [if_neg fresh] at held
      simp only [held]
      rw [ih (position + 1) later, named, if_neg (by simpa using fresh)]

theorem headerNames_eq (raw : List Str) :
    headerNames lower raw = (Occurrences.numbered lower (headings raw)).map named := by
  refine namesFrom_eq 1 (fun key => ?_) raw
  rw [Dict.get?_empty, List.count_nil, if_pos rfl]

end Names

/-! ## What a heading is -/

theorem length_headingsFrom (position : Nat) (raw : List Str) : (headingsFrom position raw).length = raw.length := by
  induction raw generalizing position with
  | nil => rfl
  | cons cell rest ih => rw [headingsFrom, List.length_cons, ih, List.length_cons]

theorem headingsFrom_append (position : Nat) (front back : List Str) :
    headingsFrom position (front ++ back) = headingsFrom position front ++ headingsFrom (position + front.length) back := by
  induction front generalizing position with
  | nil => rfl
  | cons cell rest ih =>
    rw [List.cons_append, headingsFrom, headingsFrom, ih, List.cons_append, List.length_cons,
      Nat.add_right_comm position 1, Nat.add_assoc]

/-- A text that begins with no blank. -/
def Dark (name : Str) : Prop := ∃ point rest, name = point :: rest ∧ point.isSpace = false

variable {name : Str}

theorem Dark.append (dark : Dark name) (more : Str) : Dark (name ++ more) := by
  obtain ⟨point, rest, rfl, inked⟩ := dark
  exact ⟨point, rest ++ more, rfl, inked⟩

theorem dark_strip {text : Str} (stated : Str.strip text ≠ []) : Dark (Str.strip text) := by
  have first : ∀ point ∈ (text.dropWhile CodePoint.isSpace).head?, point.isSpace = false := by
    intro point head
    have found := List.head?_dropWhile_not CodePoint.isSpace text
    rw [Option.mem_def.mp head] at found
    simpa using found
  have front : Str.strip text <+: text.dropWhile CodePoint.isSpace := by
    rw [← List.reverse_suffix, Str.strip, List.reverse_reverse]
    exact List.dropWhile_suffix _
  obtain ⟨more, split⟩ := front
  cases held : Str.strip text with
  | nil => exact absurd held stated
  | cons point rest =>
    rw [held, List.cons_append] at split
    exact ⟨point, rest, rfl, first point (by rw [← split]; rfl)⟩

theorem dark_stated (position : Nat) (cell : Str) : Dark (stated position cell) := by
  unfold stated
  split
  · exact ⟨.char 'c', str "olumn_" ++ digits position, rfl, rfl⟩
  · next blankless => exact dark_strip blankless

theorem dark_heading (position : Nat) (cell : Str) : Dark (heading position cell) := by
  obtain ⟨point, rest, same, inked⟩ := dark_stated position cell
  unfold heading
  rw [same]
  split
  · exact ⟨point, rest.take 127, rfl, inked⟩
  · exact ⟨point, rest, rfl, inked⟩

theorem length_heading (position : Nat) (cell : Str) : (heading position cell).length ≤ maxName := by
  unfold heading
  split
  · exact List.length_take_le _ _
  · next short => exact Nat.le_of_not_lt short

structure IsName (cell : Str) : Prop where
  spaced : spaced cell = cell
  stated : cell ≠ []
  short : cell.length ≤ maxName

theorem IsName.heading {cell : Str} (valid : IsName cell) (position : Nat) : heading position cell = cell := by
  have name : HeaderNames.stated position cell = cell := by
    rw [HeaderNames.stated, valid.spaced, if_neg valid.stated]
  rw [HeaderNames.heading, name, if_neg (Nat.not_lt.mpr valid.short)]

theorem mem_headingsFrom {position : Nat} {raw : List Str} (member : name ∈ headingsFrom position raw) :
    ∃ place cell, name = heading place cell := by
  induction raw generalizing position with
  | nil => exact absurd member List.not_mem_nil
  | cons cell rest ih =>
    rcases List.mem_cons.mp member with rfl | later
    · exact ⟨position, cell, rfl⟩
    · exact ih later

/-! ## A numbered name -/

theorem eq_of_suffixed_eq {first second : Str} {one two : Nat} (same : suffixed first one = suffixed second two) :
    first = second ∧ one = two := by
  have unmarked : ∀ number, ∀ point ∈ (digits number).reverse, decide (point ≠ CodePoint.char '_') = true := by
    intro number point member
    obtain ⟨c, inside, rfl⟩ := List.mem_map.mp (List.mem_reverse.mp member)
    refine decide_eq_true fun mark => ?_
    obtain rfl := CodePoint.char.inj mark
    exact Nat.underscore_not_in_toDigits inside
  have turned : (digits one).reverse ++ .char '_' :: first.reverse =
      (digits two).reverse ++ .char '_' :: second.reverse := by
    have flipped := congrArg List.reverse same
    simpa [suffixed] using flipped
  have cut : (digits one).reverse = (digits two).reverse := by
    have kept := congrArg (List.takeWhile fun point => point ≠ CodePoint.char '_') turned
    rwa [List.takeWhile_append_of_pos (unmarked one), List.takeWhile_append_of_pos (unmarked two),
      List.takeWhile_cons_of_neg (by simp), List.takeWhile_cons_of_neg (by simp), List.append_nil, List.append_nil] at kept
  rw [cut] at turned
  have names := (List.cons.inj (List.append_cancel_left turned)).2
  have numerals : Nat.toDigits 10 one = Nat.toDigits 10 two :=
    List.map_injective_iff.mpr (fun _ _ same => CodePoint.char.inj same) (List.reverse_injective cut)
  refine ⟨List.reverse_injective names, ?_⟩
  rw [← Nat.ofDigitChars_ten_toDigits (n := one), numerals, Nat.ofDigitChars_ten_toDigits]

theorem suffixed_ne (name : Str) (number : Nat) : suffixed name number ≠ name := by
  intro same
  have longer := congrArg List.length same
  rw [suffixed, List.length_append, List.length_cons] at longer
  omega

/-! ## Usable names -/

section Usable

variable (lower : Str → Str)

/-- One name for each column, none blank, no two alike but for case, none too long; and a cell that is a
name which no other cell says is left as it stands. -/
structure Usable (raw names : List Str) : Prop where
  one : names.length = raw.length
  stated : ∀ name ∈ names, ∃ point ∈ name, point.isSpace = false
  apart : (names.map lower).Nodup
  short : ∀ name ∈ names, name.length ≤ maxName
  kept : ∀ front cell back, raw = front ++ cell :: back → IsName cell → lower cell ∉ (front ++ back).map lower →
    names[front.length]? = some cell

/-- What a repeated heading is named is no column's heading and not too long, and a cell that is a name
which no other cell says is no heading in front of it. -/
structure Fits (raw : List Str) : Prop where
  free : ∀ front name back, headings raw = front ++ name :: back → lower name ∈ front.map lower →
    suffixed (lower name) ((front.map lower).count (lower name) + 1) ∉ (headings raw).map lower
  short : ∀ front name back, headings raw = front ++ name :: back → lower name ∈ front.map lower →
    (suffixed name ((front.map lower).count (lower name) + 1)).length ≤ maxName
  unsaid : ∀ front cell back, raw = front ++ cell :: back → IsName cell → lower cell ∉ (front ++ back).map lower →
    lower cell ∉ (headings front).map lower

variable {lower}

theorem lower_named (documented : ∀ name number, lower (suffixed name number) = suffixed (lower name) number)
    (entry : Str × Nat) : lower (named entry) = named (lower entry.1, entry.2) := by
  unfold named
  split
  · rfl
  · exact documented _ _

/-- A heading's place among the numbered ones. -/
theorem mem_numbered_iff {names : List Str} {name : Str} {number : Nat} :
    (name, number) ∈ Occurrences.numbered lower names ↔ ∃ front back, names = front ++ name :: back ∧
      number = (front.map lower).count (lower name) + 1 := by
  rw [Occurrences.numbered, Occurrences.mem_numberedFrom_iff]
  simp only [List.count_nil, Nat.zero_add]

theorem map_fst_numberedFrom (seen names : List Str) :
    (Occurrences.numberedFrom lower seen names).map Prod.fst = names := by
  induction names generalizing seen with
  | nil => rfl
  | cons name rest ih => rw [Occurrences.numberedFrom, List.map_cons, ih]

/-- The names are apart exactly when no numbered one is a heading. -/
theorem apart_iff (documented : ∀ name number, lower (suffixed name number) = suffixed (lower name) number)
    (raw : List Str) : ((headerNames lower raw).map lower).Nodup ↔
      ∀ front name back, headings raw = front ++ name :: back → lower name ∈ front.map lower →
        suffixed (lower name) ((front.map lower).count (lower name) + 1) ∉ (headings raw).map lower := by
  have keyed : ((Occurrences.numbered lower (headings raw)).map fun entry => (lower entry.1, entry.2)).Nodup :=
    Occurrences.nodup_numberedFrom [] (headings raw)
  have lowered : (headerNames lower raw).map lower =
      ((Occurrences.numbered lower (headings raw)).map fun entry => (lower entry.1, entry.2)).map named := by
    rw [headerNames_eq, List.map_map, List.map_map]
    exact List.map_congr_left fun entry _ => lower_named documented entry
  rw [lowered, List.nodup_map_iff_inj_on keyed]
  constructor
  · intro injective front name back split repeated taken
    obtain ⟨other, inside, same⟩ := List.mem_map.mp taken
    obtain ⟨first, alike, stands⟩ := @Occurrences.exists_first _ _ _ lower _ _ _ inside
    have repeats : (name, (front.map lower).count (lower name) + 1) ∈ Occurrences.numbered lower (headings raw) :=
      mem_numbered_iff.mpr ⟨front, back, split, rfl⟩
    have many := List.count_pos_iff.mpr repeated
    have equal := injective _ (List.mem_map_of_mem stands) _ (List.mem_map_of_mem repeats)
      (by simp only [named, if_pos, alike, same]; rw [if_neg (by omega)])
    have number := congrArg Prod.snd equal
    simp only at number
    omega
  · intro free first firstIn second secondIn same
    obtain ⟨⟨one, m⟩, oneIn, rfl⟩ := List.mem_map.mp firstIn
    obtain ⟨⟨two, n⟩, twoIn, rfl⟩ := List.mem_map.mp secondIn
    have crossed : ∀ {left right : Str} {number : Nat}, (left, 1) ∈ Occurrences.numbered lower (headings raw) →
        (right, number) ∈ Occurrences.numbered lower (headings raw) → number ≠ 1 →
        lower left ≠ suffixed (lower right) number := by
      intro left right number leftIn rightIn more clash
      obtain ⟨front, back, split, rfl⟩ := mem_numbered_iff.mp rightIn
      obtain ⟨before, after, whole, -⟩ := mem_numbered_iff.mp leftIn
      refine free front right back split (List.count_pos_iff.mp (by omega)) (List.mem_map.mpr ⟨left, ?_, clash⟩)
      rw [whole]
      exact List.mem_append_right _ List.mem_cons_self
    simp only [named] at same
    by_cases mFirst : m = 1
    · by_cases nFirst : n = 1
      · rw [if_pos mFirst, if_pos nFirst] at same
        rw [same, mFirst, nFirst]
      · rw [if_pos mFirst, if_neg nFirst] at same
        exact absurd same (crossed (mFirst ▸ oneIn) twoIn nFirst)
    · by_cases nFirst : n = 1
      · rw [if_neg mFirst, if_pos nFirst] at same
        exact absurd same.symm (crossed (nFirst ▸ twoIn) oneIn mFirst)
      · rw [if_neg mFirst, if_neg nFirst] at same
        obtain ⟨keys, numbers⟩ := eq_of_suffixed_eq same
        rw [keys, numbers]

theorem dark_named {entry : Str × Nat} (dark : Dark entry.1) : Dark (named entry) := by
  unfold named
  split
  · exact dark
  · exact dark.append _

/-- A column's name, by its heading and the headings in front. -/
theorem getElem?_headerNames (front : List Str) (cell : Str) (back : List Str) :
    (headerNames lower (front ++ cell :: back))[front.length]? =
      some (named (heading (1 + front.length) cell,
        ((headings front).map lower).count (lower (heading (1 + front.length) cell)) + 1)) := by
  rw [headerNames_eq, headings, headingsFrom_append, headingsFrom, List.getElem?_map, ← length_headingsFrom 1 front,
    Occurrences.numbered, Occurrences.getElem?_numberedFrom, List.count_nil, Nat.zero_add]
  rfl

/-- The names are usable exactly when the numbered ones fit. -/
theorem header_names_usable_iff
    (documented : ∀ name number, lower (suffixed name number) = suffixed (lower name) number) (raw : List Str) :
    Usable lower raw (headerNames lower raw) ↔ Fits lower raw := by
  constructor
  · intro usable
    refine ⟨(apart_iff documented raw).mp usable.apart, fun front name back split repeated => ?_,
      fun front cell back split valid single taken => ?_⟩
    · refine usable.short _ ?_
      rw [headerNames_eq]
      refine List.mem_map.mpr ⟨(name, _), mem_numbered_iff.mpr ⟨front, back, split, rfl⟩, ?_⟩
      have many := List.count_pos_iff.mpr repeated
      rw [named, if_neg (by simp only; omega)]
    · have stands := usable.kept front cell back split valid single
      have many := List.count_pos_iff.mpr taken
      rw [split, getElem?_headerNames, valid.heading, named, if_neg (by simp only; omega)] at stands
      exact suffixed_ne _ _ (Option.some.inj stands)
  · intro fits
    refine ⟨?_, fun name member => ?_, (apart_iff documented raw).mpr fits.free, fun name member => ?_,
      fun front cell back split valid single => ?_⟩
    · rw [headerNames_eq, List.length_map, Occurrences.numbered, Occurrences.length_numberedFrom, headings,
        length_headingsFrom]
    · rw [headerNames_eq] at member
      obtain ⟨entry, inside, rfl⟩ := List.mem_map.mp member
      have headed : entry.1 ∈ headings raw := by
        rw [← map_fst_numberedFrom [] (headings raw)]
        exact List.mem_map_of_mem inside
      obtain ⟨place, cell, same⟩ := mem_headingsFrom headed
      obtain ⟨point, rest, text, inked⟩ := dark_named (same ▸ dark_heading place cell : Dark entry.1)
      exact ⟨point, by rw [text]; exact List.mem_cons_self, inked⟩
    · rw [headerNames_eq] at member
      obtain ⟨⟨heading, number⟩, inside, rfl⟩ := List.mem_map.mp member
      obtain ⟨front, back, split, rfl⟩ := mem_numbered_iff.mp inside
      by_cases repeated : lower heading ∈ front.map lower
      · have many := List.count_pos_iff.mpr repeated
        rw [named, if_neg (by simp only; omega)]
        exact fits.short front heading back split repeated
      · rw [List.count_eq_zero.mpr repeated, named, if_pos rfl]
        have headed : heading ∈ headings raw := by
          rw [split]
          exact List.mem_append_right _ List.mem_cons_self
        obtain ⟨place, cell, rfl⟩ := mem_headingsFrom headed
        exact length_heading place cell
    · have unsaid := fits.unsaid front cell back split valid single
      rw [split, getElem?_headerNames, valid.heading, List.count_eq_zero.mpr unsaid, named, if_pos rfl]

/-- The letters of ASCII in lower case. -/
def asciiLower (text : Str) : Str :=
  text.map fun point => match point with
    | .char c => .char c.toLower
    | .surrogate offset => .surrogate offset

theorem asciiLower_suffixed (name : Str) (number : Nat) :
    asciiLower (suffixed name number) = suffixed (asciiLower name) number := by
  have numerals : (Nat.toDigits 10 number).map Char.toLower = Nat.toDigits 10 number := by
    have same := congrArg String.toList (Text.asciiLower_toString number)
    rwa [Nat.toString_eq_ofList_toDigits, Text.asciiLower, String.toList_ofList, String.toList_ofList] at same
  have same : asciiLower (digits number) = digits number := by
    calc asciiLower (digits number)
        = ((Nat.toDigits 10 number).map Char.toLower).map .char := by
          rw [asciiLower, digits, List.map_map, List.map_map]
          rfl
      _ = digits number := by rw [numerals, digits]
  rw [suffixed, asciiLower, List.map_append, List.map_cons]
  exact congrArg (asciiLower name ++ CodePoint.char '_' :: ·) same

/-- A repeated heading is named as a later one is headed. -/
def suffixTaken : List Str := [str "a", str "a", str "a_2"]

theorem suffix_taken : ¬ Usable asciiLower suffixTaken (headerNames asciiLower suffixTaken) := by
  intro usable
  exact absurd usable.apart (by decide)

theorem header_names_usable_ascii :
    Usable asciiLower [str "Id", str "ID", []] (headerNames asciiLower [str "Id", str "ID", []]) ↔
      Fits asciiLower [str "Id", str "ID", []] :=
  header_names_usable_iff asciiLower_suffixed _

end Usable

end DbaBrain.Lib.HeaderNames
