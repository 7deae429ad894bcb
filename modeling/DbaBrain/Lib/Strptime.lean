import DbaBrain.Lib.Coerce
import DbaBrain.Lib.Stamps

/-!
# Times read by a format

`datetime.strptime` on the directives `%Y %m %d %H %M %S %z`.  A format is a
regular expression: every directive offers the ways it can begin the text, in
the order Python's engine tries them, and the first that lets the rest of the
format match is taken.  What is then left of the text must be nothing.
-/

namespace DbaBrain.Lib.Strptime

open DbaBrain.Foundation.Calendar DbaBrain.Foundation.Text
open DbaBrain.Lib.Coerce DbaBrain.Lib.Stamps

/-! ## The directives -/

inductive Directive
  | year | month | day | hour | minute | second | zone
  | blank
  | literal (c : Char)
  deriving DecidableEq

/-- One class of characters a position. -/
abbrev Pattern := List (Char → Bool)

def between (first last : Char) (c : Char) : Bool := first ≤ c && c ≤ last

def anyDigit : Char → Bool := between '0' '9'

/-- `(:?[0-5]\d(\.\d{1,6})?)?` after the minutes of an offset, the longest first. -/
def zoneTails : List Pattern :=
  ([[(· == ':')], []].flatMap fun colon =>
    [6, 5, 4, 3, 2, 1, 0].map fun digits =>
      colon ++ [between '0' '5', anyDigit] ++
        if digits = 0 then [] else (· == '.') :: List.replicate digits anyDigit) ++ [[]]

def zonePatterns : List Pattern :=
  ([[(· == ':')], []].flatMap fun colon =>
    zoneTails.map fun tail =>
      [fun c => c == '+' || c == '-', anyDigit, anyDigit] ++ colon ++ [between '0' '5', anyDigit] ++ tail) ++
    [[(· == 'Z')]]

/-- The alternatives of a directive's expression, in the order they are tried. -/
def Directive.patterns : Directive → List Pattern
  | .year => [[anyDigit, anyDigit, anyDigit, anyDigit]]
  | .month => [[(· == '1'), between '0' '2'], [(· == '0'), between '1' '9'], [between '1' '9']]
  | .day =>
      [[(· == '3'), between '0' '1'], [between '1' '2', anyDigit], [(· == '0'), between '1' '9'],
        [between '1' '9'], [(· == ' '), between '1' '9']]
  | .hour => [[(· == '2'), between '0' '3'], [between '0' '1', anyDigit], [anyDigit]]
  | .minute => [[between '0' '5', anyDigit], [anyDigit]]
  | .second => [[(· == '6'), between '0' '1'], [between '0' '5', anyDigit], [anyDigit]]
  | .zone => zonePatterns
  | .blank => []
  | .literal expected => [[fun c => c.toLower == expected.toLower]]

def taken : Pattern → List Char → Option (List Char × List Char)
  | [], text => some ([], text)
  | _ :: _, [] => none
  | accepts :: pattern, c :: text =>
      if accepts c then (taken pattern text).map fun split => (c :: split.1, split.2) else none

/-- `\s+` takes the whole run first, and gives characters back one at a time. -/
def blankOptions (text : List Char) : List (List Char × List Char) :=
  (List.range (text.takeWhile isSpace).length).reverse.map fun kept => (text.take (kept + 1), text.drop (kept + 1))

def Directive.options (directive : Directive) (text : List Char) : List (List Char × List Char) :=
  match directive with
  | .blank => blankOptions text
  | other => other.patterns.filterMap fun pattern => taken pattern text

/-- Every match of a format at the start of a text: what each directive took, and what is left. -/
def matched : List Directive → List Char → List (List (Directive × List Char) × List Char)
  | [], text => [([], text)]
  | directive :: format, text =>
      (directive.options text).flatMap fun split =>
        (matched format split.2).map fun found => ((directive, split.1) :: found.1, found.2)

/-! ## What the directives took, read as a time -/

/-- A group's number, and `default` where the format has no such directive. -/
def numberOf (groups : List (Directive × List Char)) (directive : Directive) (default : Int) : Option Int :=
  match groups.lookup directive with
  | none => some default
  | some group => number (stripChars group)

/-- The text without the colons of an offset; `none` where it uses them for some parts only. -/
def withoutColons (zone : List Char) : Option (List Char) :=
  if zone[3]? = some ':' then
    let shorter := zone.take 3 ++ zone.drop 4
    if shorter.length > 5 then
      if shorter[5]? = some ':' then some (shorter.take 5 ++ shorter.drop 6) else none
    else some shorter
  else some zone

/-- A timezone's offset, which is less than a day either way. -/
def timezone (negative : Bool) (offset : Int) : Option Int :=
  if offset < 86400 * microsecondsPerSecond then some (if negative then -offset else offset) else none

/-- An offset's microseconds. -/
def offsetOf (zone : List Char) : Option Int :=
  if zone = ['Z'] then some 0
  else do
    let digits ← withoutColons zone
    let hours ← number ((digits.drop 1).take 2)
    let minutes ← number ((digits.drop 3).take 2)
    let seconds ← number ((digits.drop 5).take 2)
    let remainder := digits.drop 8
    let fraction ← number (remainder ++ List.replicate (6 - remainder.length) '0')
    timezone (zone.head? = some '-') ((hours * 3600 + minutes * 60 + seconds) * microsecondsPerSecond + fraction)

/-- The offset the groups state; a format without the directive states none. -/
def zoneOf (groups : List (Directive × List Char)) : Option (Option Int) :=
  match groups.lookup .zone with
  | none => some none
  | some zone => (offsetOf zone).map some

/-- The time the groups state; parts the format leaves out are those of the first of January 1900. -/
def timeOf (groups : List (Directive × List Char)) : Option IsoReading := do
  let days ← daysBefore (← numberOf groups .year 1900) (← numberOf groups .month 1) (← numberOf groups .day 1)
  let hour ← numberOf groups .hour 0
  let minute ← numberOf groups .minute 0
  let second ← numberOf groups .second 0
  let offset ← zoneOf groups
  if second < 60 then
    some ⟨(days * 86400 + hour * 3600 + minute * 60 + second) * microsecondsPerSecond, offset⟩
  else none

/-- `datetime.strptime(text, format)`, `none` for its `ValueError`. -/
def strptime (format : List Directive) (text : String) : Option IsoReading :=
  match (matched format text.toList).head? with
  | some (groups, []) => timeOf groups
  | _ => none

/-! ## What every match has -/

theorem append_of_taken {pattern : Pattern} {text front rest : List Char}
    (found : taken pattern text = some (front, rest)) : text = front ++ rest := by
  induction pattern generalizing text front with
  | nil =>
    simp only [taken, Option.some.injEq, Prod.mk.injEq] at found
    rw [← found.1, ← found.2, List.nil_append]
  | cons accepts pattern ih =>
    cases text with
    | nil => cases found
    | cons c text =>
      rw [taken] at found
      split at found
      · obtain ⟨⟨inner, left⟩, deeper, same⟩ := Option.map_eq_some_iff.mp found
        cases same
        rw [ih deeper, List.cons_append]
      · cases found

theorem blankOptions_spec {text front rest : List Char} (option : (front, rest) ∈ blankOptions text) :
    text = front ++ rest ∧ 0 < front.countP isSpace := by
  unfold blankOptions at option
  obtain ⟨kept, inRun, same⟩ := List.mem_map.mp option
  cases same
  refine ⟨(List.take_append_drop _ _).symm, ?_⟩
  rw [List.mem_reverse, List.mem_range] at inRun
  cases text with
  | nil => exact absurd inRun (Nat.not_lt_zero _)
  | cons c text =>
    cases blank : isSpace c with
    | false =>
      rw [List.takeWhile_cons_of_neg (by simp [blank])] at inRun
      exact absurd inRun (Nat.not_lt_zero _)
    | true =>
      rw [List.take_succ_cons, List.countP_cons_of_pos blank]
      exact Nat.succ_pos _

theorem append_of_option {directive : Directive} {text front rest : List Char}
    (option : (front, rest) ∈ directive.options text) : text = front ++ rest := by
  cases directive with
  | blank => exact (blankOptions_spec option).1
  | _ =>
    obtain ⟨pattern, -, found⟩ := List.mem_filterMap.mp option
    exact append_of_taken found

theorem countP_blank_le {format : List Directive} {text rest : List Char} {groups : List (Directive × List Char)}
    (found : (groups, rest) ∈ matched format text) : format.count .blank ≤ text.countP isSpace := by
  induction format generalizing text groups with
  | nil => exact Nat.zero_le _
  | cons directive format ih =>
    obtain ⟨⟨front, left⟩, option, deeper⟩ := List.mem_flatMap.mp found
    obtain ⟨⟨inner, last⟩, later, same⟩ := List.mem_map.mp deeper
    cases same
    have below : format.count .blank ≤ left.countP isSpace := ih later
    have split := append_of_option option
    rw [split, List.countP_append]
    by_cases here : directive = .blank
    · subst here
      have some_blank := (blankOptions_spec option).2
      rw [List.count_cons_self]
      omega
    · rw [List.count_cons_of_ne here]
      omega

/-- A letter of the format is a letter of the text, in either case. -/
theorem literal_of_matched {format : List Directive} {text rest : List Char} {groups : List (Directive × List Char)}
    (found : (groups, rest) ∈ matched format text) {expected : Char} (member : .literal expected ∈ format) :
    ∃ c ∈ text, c.toLower = expected.toLower := by
  induction format generalizing text groups with
  | nil => cases member
  | cons directive format ih =>
    obtain ⟨⟨front, left⟩, option, deeper⟩ := List.mem_flatMap.mp found
    obtain ⟨⟨inner, last⟩, later, same⟩ := List.mem_map.mp deeper
    cases same
    rw [append_of_option option]
    rcases List.mem_cons.mp member with rfl | further
    · obtain ⟨pattern, inPatterns, first⟩ := List.mem_filterMap.mp option
      rw [List.mem_singleton.mp inPatterns] at first
      cases text with
      | nil => cases first
      | cons c text =>
        rw [taken] at first
        split at first
        · rename_i alike
          obtain ⟨⟨empty, after⟩, -, same⟩ := Option.map_eq_some_iff.mp first
          cases same
          exact ⟨c, by simp, by simpa using alike⟩
        · cases first
    · obtain ⟨c, there, alike⟩ := ih later further
      exact ⟨c, List.mem_append_right _ there, alike⟩

/-! ## The first match -/

theorem matched_head {directive : Directive} {format : List Directive} {text front rest left : List Char}
    {groups : List (Directive × List Char)} (first : (directive.options text).head? = some (front, rest))
    (later : (matched format rest).head? = some (groups, left)) :
    (matched (directive :: format) text).head? = some ((directive, front) :: groups, left) := by
  obtain ⟨others, options⟩ : ∃ others, directive.options text = (front, rest) :: others :=
    ⟨_, List.eq_cons_of_mem_head? first⟩
  rw [matched, options, List.flatMap_cons, List.head?_append_of_ne_nil, List.head?_map, later]
  · rfl
  · intro none
    rw [List.map_eq_nil_iff.mp none] at later
    cases later

/-! ## Fields as they are written -/

theorem taken_of_fits {pattern : Pattern} {front : List Char} (rest : List Char)
    (fits : List.Forall₂ (fun accepts c => accepts c = true) pattern front) :
    taken pattern (front ++ rest) = some (front, rest) := by
  induction fits with
  | nil => rfl
  | cons accepted _ ih => rw [List.cons_append, taken, if_pos accepted, ih, Option.map_some]

theorem anyDigit_digit (n : Nat) : anyDigit (digit n) = true := by
  have below : n % 10 < 10 := Nat.mod_lt _ (by decide)
  unfold digit
  generalize n % 10 = unit at below
  interval_cases unit <;> decide

theorem isSpace_digit (n : Nat) : isSpace (digit n) = false := by
  have below : n % 10 < 10 := Nat.mod_lt _ (by decide)
  unfold digit
  generalize n % 10 = unit at below
  interval_cases unit <;> decide

theorem options_year (year : Nat) (rest : List Char) :
    (Directive.year.options (pad 4 year ++ rest)).head? = some (pad 4 year, rest) := by
  have fits : List.Forall₂ (fun (accepts : Char → Bool) c => accepts c = true)
      [anyDigit, anyDigit, anyDigit, anyDigit] (pad 4 year) := by
    simp [pad, anyDigit_digit]
  simp [Directive.options, Directive.patterns, taken_of_fits rest fits]

theorem options_month {month : Nat} (low : 1 ≤ month) (high : month ≤ 12) (rest : List Char) :
    (Directive.month.options (pad 2 month ++ rest)).head? = some (pad 2 month, rest) := by
  interval_cases month <;> rfl

theorem options_day {day : Nat} (low : 1 ≤ day) (high : day ≤ 31) (rest : List Char) :
    (Directive.day.options (pad 2 day ++ rest)).head? = some (pad 2 day, rest) := by
  interval_cases day <;> rfl

theorem options_hour {hour : Nat} (high : hour < 24) (rest : List Char) :
    (Directive.hour.options (pad 2 hour ++ rest)).head? = some (pad 2 hour, rest) := by
  interval_cases hour <;> rfl

theorem options_minute {minute : Nat} (high : minute < 60) (rest : List Char) :
    (Directive.minute.options (pad 2 minute ++ rest)).head? = some (pad 2 minute, rest) := by
  interval_cases minute <;> rfl

theorem options_second {second : Nat} (high : second < 60) (rest : List Char) :
    (Directive.second.options (pad 2 second ++ rest)).head? = some (pad 2 second, rest) := by
  interval_cases second <;> rfl

theorem options_literal (c : Char) (rest : List Char) :
    ((Directive.literal c).options (c :: rest)).head? = some ([c], rest) := by
  simp [Directive.options, Directive.patterns, taken]

theorem options_blank {c : Char} {rest : List Char} (solid : isSpace c = false) :
    (Directive.blank.options (' ' :: c :: rest)).head? = some ([' '], c :: rest) := by
  have space : isSpace ' ' = true := by decide
  simp [Directive.options, blankOptions, space, solid]

/-! ## Stamps -/

/-- `%Y-%m-%d %H:%M:%S`, and what follows it. -/
def stampFormat (ending : List Directive) : List Directive :=
  [.year, .literal '-', .month, .literal '-', .day, .blank, .hour, .literal ':', .minute, .literal ':', .second] ++ ending

theorem monthAndDay_range (moment : Moment) :
    (1 ≤ moment.monthAndDay.1 ∧ moment.monthAndDay.1 ≤ 12) ∧ 1 ≤ moment.monthAndDay.2 ∧ moment.monthAndDay.2 ≤ 31 := by
  have date := daysBefore_date moment
  have high := moment.monthAndDay_le
  unfold daysBefore at date
  dsimp only at date
  split at date
  · cases date
  · rename_i length among
    split at date
    · rename_i within
      have months := (List.getElem?_eq_some_iff.mp among).1
      have twelve : (monthLengths (isLeap (yearOf moment.day : Int).toNat)).length = 12 := rfl
      omega
    · cases date

/-- A stamp's nineteen characters. -/
theorem toList_stampText (moment : Moment) :
    (stampText moment).toList = pad 4 (yearOf moment.day) ++ '-' :: (pad 2 moment.monthAndDay.1 ++
      '-' :: (pad 2 moment.monthAndDay.2 ++ ' ' :: (pad 2 (moment.val / 3600 % 24) ++ ':' ::
        (pad 2 (moment.val / 60 % 60) ++ ':' :: pad 2 (moment.val % 60))))) := by
  simp [stampText, stampShape, Moment.fields, render]

def stampGroups (moment : Moment) : List (Directive × List Char) :=
  [(.year, pad 4 (yearOf moment.day)), (.literal '-', ['-']), (.month, pad 2 moment.monthAndDay.1),
    (.literal '-', ['-']), (.day, pad 2 moment.monthAndDay.2), (.blank, [' ']),
    (.hour, pad 2 (moment.val / 3600 % 24)), (.literal ':', [':']), (.minute, pad 2 (moment.val / 60 % 60)),
    (.literal ':', [':']), (.second, pad 2 (moment.val % 60))]

theorem matched_stamp (moment : Moment) {ending : List Directive} {rest left : List Char}
    {groups : List (Directive × List Char)} (later : (matched ending rest).head? = some (groups, left)) :
    (matched (stampFormat ending) ((stampText moment).toList ++ rest)).head? =
      some (stampGroups moment ++ groups, left) := by
  obtain ⟨month, dayOfMonth⟩ := monthAndDay_range moment
  have hourLt : moment.val / 3600 % 24 < 24 := Nat.mod_lt _ (by decide)
  have minuteLt : moment.val / 60 % 60 < 60 := Nat.mod_lt _ (by decide)
  have secondLt : moment.val % 60 < 60 := Nat.mod_lt _ (by decide)
  have seconds := matched_head (options_second secondLt rest) later
  have minutes := matched_head (options_minute minuteLt _) (matched_head (options_literal ':' _) seconds)
  have hours := matched_head (options_hour hourLt _) (matched_head (options_literal ':' _) minutes)
  have blank : (Directive.blank.options (' ' :: (pad 2 (moment.val / 3600 % 24) ++ ':' ::
      (pad 2 (moment.val / 60 % 60) ++ ':' :: (pad 2 (moment.val % 60) ++ rest))))).head? =
        some ([' '], pad 2 (moment.val / 3600 % 24) ++ ':' ::
          (pad 2 (moment.val / 60 % 60) ++ ':' :: (pad 2 (moment.val % 60) ++ rest))) :=
    options_blank (isSpace_digit _)
  have clock := matched_head blank hours
  have days := matched_head (options_day dayOfMonth.1 dayOfMonth.2 _) clock
  have months := matched_head (options_month month.1 month.2 _) (matched_head (options_literal '-' _) days)
  simp only [toList_stampText, List.append_assoc, List.cons_append]
  exact matched_head (options_year _ _) (matched_head (options_literal '-' _) months)

theorem stripChars_pad (width n : Nat) : stripChars (pad width n) = pad width n := by
  have solid : ∀ c ∈ pad width n, isSpace c = false := by
    intro c member
    obtain ⟨m, rfl⟩ := mem_pad member
    exact isSpace_digit m
  have back : (pad width n).reverse.dropWhile isSpace = (pad width n).reverse :=
    dropWhile_eq_self fun c last => solid c (List.mem_reverse.mp (List.mem_of_mem_head? last))
  rw [stripChars, dropWhile_eq_self fun c first => solid c (List.mem_of_mem_head? first), back, List.reverse_reverse]

theorem timeOf_stamp (moment : Moment) {groups : List (Directive × List Char)} {offset : Option Int}
    (stated : zoneOf groups = some offset) :
    timeOf (stampGroups moment ++ groups) = some ⟨instantOf moment, offset⟩ := by
  obtain ⟨year, month, dayOfMonth, hour, minute, second⟩ := numbers_pad moment
  have days := daysBefore_date moment
  have secondLt : ((moment.val % 60 : Nat) : Int) < 60 := Int.ofNat_lt.mpr (Nat.mod_lt _ (by decide))
  have zone : zoneOf (stampGroups moment ++ groups) = some offset := stated
  have groupOf : numberOf (stampGroups moment ++ groups) .year 1900 = some (yearOf moment.day : Int) ∧
      numberOf (stampGroups moment ++ groups) .month 1 = some (moment.monthAndDay.1 : Int) ∧
      numberOf (stampGroups moment ++ groups) .day 1 = some (moment.monthAndDay.2 : Int) ∧
      numberOf (stampGroups moment ++ groups) .hour 0 = some ((moment.val / 3600 % 24 : Nat) : Int) ∧
      numberOf (stampGroups moment ++ groups) .minute 0 = some ((moment.val / 60 % 60 : Nat) : Int) ∧
      numberOf (stampGroups moment ++ groups) .second 0 = some ((moment.val % 60 : Nat) : Int) := by
    have group {width n : Nat} {read : Int} (reads : number (pad width n) = some read) :
        number (stripChars (pad width n)) = some read :=
      (congrArg number (stripChars_pad width n)).trans reads
    exact ⟨group year, group month, group dayOfMonth, group hour, group minute, group second⟩
  obtain ⟨yearGroup, monthGroup, dayGroup, hourGroup, minuteGroup, secondGroup⟩ := groupOf
  unfold timeOf
  rw [zone, yearGroup, monthGroup, dayGroup, hourGroup, minuteGroup, secondGroup]
  simp only [Option.bind_eq_bind, Option.bind_some, days]
  rw [if_pos secondLt, clock_val]
  rfl

theorem strptime_stampText (moment : Moment) :
    strptime (stampFormat []) (stampText moment) = some ⟨instantOf moment, none⟩ := by
  have nothing : (matched [] []).head? = some (([] : List (Directive × List Char)), []) := rfl
  have found := matched_stamp moment nothing
  rw [List.append_nil, List.append_nil] at found
  have read := @timeOf_stamp moment [] none rfl
  rw [List.append_nil] at read
  unfold strptime
  rw [found]
  exact read

/-- A text without as many blanks as the format is not read by it. -/
theorem strptime_eq_none_of_blanks {format : List Directive} {text : String}
    (fewer : text.toList.countP isSpace < format.count .blank) : strptime format text = none := by
  unfold strptime
  split
  · rename_i groups found
    exact absurd (countP_blank_le (List.mem_of_mem_head? found)) fewer.not_ge
  · rfl

/-- A text without a letter of the format is not read by it. -/
theorem strptime_eq_none_of_literal {format : List Directive} {text : String} {expected : Char}
    (member : .literal expected ∈ format) (absent : ∀ c ∈ text.toList, c.toLower ≠ expected.toLower) :
    strptime format text = none := by
  unfold strptime
  split
  · rename_i groups found
    obtain ⟨c, there, alike⟩ := literal_of_matched (List.mem_of_mem_head? found) member
    exact absurd alike (absent c there)
  · rfl

end DbaBrain.Lib.Strptime
