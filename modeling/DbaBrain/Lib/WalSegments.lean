import DbaBrain.Foundation.Numerals
import DbaBrain.Foundation.PyValues
import DbaBrain.Foundation.Selection
import DbaBrain.Foundation.Text

/-!
# The WAL a PostgreSQL restore replays

`postgresql_wal_break` reads the names of the archived WAL segments. Of an
archive on one timeline, with segments of 16 MB, it finds no break exactly where
the segment of the base backup and every one from it to the newest are archived,
and what it names as missing is such a segment and is not there.
-/

namespace DbaBrain.Lib.WalSegments

open DbaBrain.Foundation.Numerals (hexDigits isHexDigit)
open DbaBrain.Foundation.PyValues (asciiUpper)
open DbaBrain.Foundation.Selection (sortedBy sortedBy_perm sortedBy_pairwise mem_sortedBy)
open DbaBrain.Foundation.Text (strip append_ne_empty)

/- `str.upper`. -/

variable (upper : String → String)

def normalized (given : String) : String := upper (strip given)

/-- `WAL_SEGMENT_NAME` matches. -/
def isSegmentName (name : String) : Bool := name.toList.length = 24 && name.toList.all isHexDigit

/-- The names of the archived segments, sorted, each once. -/
def segmentNames (segments : List String) : List String :=
  sortedBy id ((segments.map (normalized upper)).filter isSegmentName).dedup

def timelineOf (name : String) : List Char := name.toList.take 8

/-- A segment's place in the WAL, where its low word is that of a 16 MB segment. -/
def number (name : String) : Option Nat :=
  let log := hexDigits.value ((name.toList.drop 8).take 8)
  let seg := hexDigits.value ((name.toList.drop 16).take 8)
  if 0xFF < seg then none else some (log * 0x100 + seg)

def nameOf (timeline : List Char) (place : Nat) : String :=
  String.ofList (timeline ++ hexDigits.padded 8 (place / 0x100) ++ hexDigits.padded 8 (place % 0x100))

def notArchived (start : String) : String :=
  "the WAL segment the base backup starts from, " ++ start ++ ", is not archived"

def segmentMissing (timeline : List Char) (missing : Nat) (name : String) : String :=
  "WAL segment " ++ nameOf timeline missing ++ " is missing - recovery would stop before " ++ name ++
    " and open on an older state"

/-- The loop over the segments behind the start. -/
def holeBehind (timeline : List Char) (previous : Option Nat) : List String → String
  | [] => ""
  | name :: rest =>
      match previous, number name with
      | some previous, some current =>
          if current ≠ previous + 1 then segmentMissing timeline (previous + 1) name
          else holeBehind timeline (some current) rest
      | _, _ => ""

def postgresqlWalBreak (startWal : String) (segments : List String) (toLatest : Bool) : String :=
  let start := normalized upper startWal
  let names := segmentNames upper segments
  if !isSegmentName start || names.isEmpty then ""
  else
    let timeline := timelineOf start
    let after := names.filter fun name => start ≤ name
    if after.any fun name => timelineOf name ≠ timeline then ""
    else if start ∉ after then notArchived start
    else if !toLatest then ""
    else holeBehind timeline (number start) after.tail

/-! ## The first hole in an ascending list -/

/-- The first number that is left out behind a number, and the one that stands there in its stead. -/
def firstHole (previous : Nat) : List Nat → Option (Nat × Nat)
  | [] => none
  | current :: rest => if current ≠ previous + 1 then some (previous + 1, current) else firstHole current rest

variable {previous : Nat} {numbers : List Nat}

theorem firstHole_none (none : firstHole previous numbers = none) :
    ∀ newest ∈ numbers, ∀ place, previous < place → place ≤ newest → place ∈ numbers := by
  induction numbers generalizing previous with
  | nil => exact fun _ member => absurd member List.not_mem_nil
  | cons current rest ih =>
    rw [firstHole] at none
    split at none
    · cases none
    · rename_i next
      rw [not_not] at next
      intro newest member place above below
      rcases eq_or_ne place current with rfl | apart
      · exact List.mem_cons_self
      · rcases List.mem_cons.mp member with rfl | later
        · omega
        · exact List.mem_cons_of_mem _ (ih none newest later place (by omega) below)

theorem firstHole_some {missing before : Nat} (ascending : (previous :: numbers).Pairwise (· < ·))
    (found : firstHole previous numbers = some (missing, before)) :
    previous < missing ∧ missing < before ∧ before ∈ numbers ∧ missing ∉ numbers := by
  induction numbers generalizing previous with
  | nil => cases found
  | cons current rest ih =>
    obtain ⟨above, later⟩ := List.pairwise_cons.mp ascending
    have next := above current List.mem_cons_self
    rw [firstHole] at found
    split at found
    · rename_i gap
      obtain ⟨rfl, rfl⟩ := Prod.mk.inj (Option.some.inj found)
      refine ⟨Nat.lt_succ_self _, by omega, List.mem_cons_self, ?_⟩
      intro member
      rcases List.mem_cons.mp member with same | there
      · exact gap same.symm
      · have behind := (List.pairwise_cons.mp later).1 _ there
        omega
    · obtain ⟨low, high, there, absent⟩ := ih later found
      refine ⟨next.trans low, high, List.mem_cons_of_mem _ there, ?_⟩
      intro member
      rcases List.mem_cons.mp member with rfl | among
      · exact lt_irrefl _ low
      · exact absent among

/-! ## Names and places -/

section Names

variable {timeline : List Char} {place : Nat}

/-- The places a name of 24 digits has room for. -/
def placeBound : Nat := 16 ^ 8 * 0x100

theorem nameOf_toList (bound : place < placeBound) :
    (nameOf timeline place).toList =
      timeline ++ hexDigits.numeral 8 (place / 0x100) ++ hexDigits.numeral 8 (place % 0x100) := by
  unfold placeBound at bound
  rw [nameOf, String.toList_ofList, hexDigits.padded_eq (by decide) (by decide) (by omega),
    hexDigits.padded_eq (by decide) (by decide) (by omega)]

theorem number_nameOf (width : timeline.length = 8) (bound : place < placeBound) :
    number (nameOf timeline place) = some place := by
  have spelled := @nameOf_toList timeline place bound
  unfold placeBound at bound
  have log : ((nameOf timeline place).toList.drop 8).take 8 = hexDigits.numeral 8 (place / 0x100) := by
    rw [spelled, List.append_assoc, List.drop_left' width, List.take_left' (hexDigits.length_numeral 8 _)]
  have seg : ((nameOf timeline place).toList.drop 16).take 8 = hexDigits.numeral 8 (place % 0x100) := by
    rw [spelled, List.drop_left' (by rw [List.length_append, width, hexDigits.length_numeral])]
    exact List.take_of_length_le (hexDigits.length_numeral 8 _).le
  unfold number
  dsimp only
  rw [log, seg, hexDigits.value_numeral (by omega), hexDigits.value_numeral (by omega), if_neg (by omega)]
  congr 1
  omega

theorem nameOf_number {name : String} (segment : isSegmentName name = true) (placed : number name = some place) :
    place < placeBound ∧ name = nameOf (timelineOf name) place := by
  rw [isSegmentName, Bool.and_eq_true, decide_eq_true_eq, List.all_eq_true] at segment
  obtain ⟨length, digits⟩ := segment
  have logDigits : ∀ c ∈ (name.toList.drop 8).take 8, isHexDigit c = true := fun c member =>
    digits c (List.mem_of_mem_drop (List.mem_of_mem_take member))
  have segDigits : ∀ c ∈ (name.toList.drop 16).take 8, isHexDigit c = true := fun c member =>
    digits c (List.mem_of_mem_drop (List.mem_of_mem_take member))
  have logLength : ((name.toList.drop 8).take 8).length = 8 := by simp [length]
  have segLength : ((name.toList.drop 16).take 8).length = 8 := by simp [length]
  have logBound := hexDigits.value_lt logDigits
  have segBound := hexDigits.value_lt segDigits
  have logText := hexDigits.numeral_value logDigits
  have segText := hexDigits.numeral_value segDigits
  rw [logLength] at logBound logText
  unfold number at placed
  dsimp only at placed
  split at placed
  · cases placed
  · rename_i low
    have same := Option.some.inj placed
    have top : place / 0x100 = hexDigits.value ((name.toList.drop 8).take 8) := by omega
    have rest : place % 0x100 = hexDigits.value ((name.toList.drop 16).take 8) := by omega
    have bound : place < placeBound := by
      unfold placeBound
      omega
    refine ⟨bound, String.toList_injective ?_⟩
    rw [nameOf_toList bound, top, rest, logText]
    have last : (name.toList.drop 16).take 8 = name.toList.drop 16 := List.take_of_length_le (by simp [length])
    rw [last] at segText segLength ⊢
    rw [segLength] at segText
    rw [segText, timelineOf, List.append_assoc]
    have joined : (name.toList.drop 8).take 8 ++ name.toList.drop 16 = name.toList.drop 8 := by
      rw [← List.drop_drop (i := 8) (j := 8)]
      exact List.take_append_drop 8 _
    rw [joined, List.take_append_drop]

/-- Names on one timeline are ordered as their places. -/
theorem nameOf_lt_iff {other : Nat} (width : timeline.length = 8) (digits : ∀ c ∈ timeline, isHexDigit c = true)
    (bound : place < placeBound) (bound' : other < placeBound) :
    nameOf timeline place < nameOf timeline other ↔ place < other := by
  have all : ∀ place, ∀ c ∈ timeline ++ hexDigits.numeral 8 (place / 0x100) ++ hexDigits.numeral 8 (place % 0x100),
      hexDigits.isDigit c = true := by
    intro place c member
    rcases List.mem_append.mp member with front | low
    · rcases List.mem_append.mp front with mark | high
      · exact digits c mark
      · exact hexDigits.isDigit_numeral 8 _ c high
    · exact hexDigits.isDigit_numeral 8 _ c low
  rw [String.lt_iff_toList_lt, nameOf_toList bound, nameOf_toList bound',
    hexDigits.lt_iff_value_lt (by simp [width]) (all place) (all other)]
  unfold placeBound at bound bound'
  rw [hexDigits.value_append, hexDigits.value_append, hexDigits.value_append, hexDigits.value_append,
    hexDigits.value_numeral (by omega), hexDigits.value_numeral (by omega), hexDigits.value_numeral (by omega),
    hexDigits.value_numeral (by omega)]
  simp only [hexDigits.length_numeral]
  omega

theorem exists_places {names : List String} (segments : ∀ name ∈ names, isSegmentName name = true)
    (one : ∀ name ∈ names, timelineOf name = timeline) (low : ∀ name ∈ names, (number name).isSome = true) :
    ∃ places : List Nat, (∀ place ∈ places, place < placeBound) ∧ names = places.map (nameOf timeline) := by
  induction names with
  | nil => exact ⟨[], by simp, rfl⟩
  | cons name rest ih =>
    obtain ⟨segment, segments⟩ := List.forall_mem_cons.mp segments
    obtain ⟨own, one⟩ := List.forall_mem_cons.mp one
    obtain ⟨placed, low⟩ := List.forall_mem_cons.mp low
    obtain ⟨places, bounds, same⟩ := ih segments one low
    obtain ⟨place, found⟩ := Option.isSome_iff_exists.mp placed
    obtain ⟨bound, spelled⟩ := nameOf_number segment found
    rw [own] at spelled
    refine ⟨place :: places, List.forall_mem_cons.mpr ⟨bound, bounds⟩, ?_⟩
    rw [List.map_cons, ← same, ← spelled]

/-- The loop finds the first place that is left out. -/
theorem holeBehind_map (width : timeline.length = 8) (previous : Nat) {places : List Nat}
    (bounds : ∀ place ∈ places, place < placeBound) :
    holeBehind timeline (some previous) (places.map (nameOf timeline)) =
      ((firstHole previous places).map fun hole => segmentMissing timeline hole.1 (nameOf timeline hole.2)).getD "" := by
  induction places generalizing previous with
  | nil => rfl
  | cons place rest ih =>
    obtain ⟨bound, bounds⟩ := List.forall_mem_cons.mp bounds
    rw [List.map_cons]
    unfold holeBehind
    rw [number_nameOf width bound, firstHole]
    dsimp only
    split
    · rfl
    · exact ih place bounds

end Names

/-! ## An archive -/

structure Archive where
  startWal : String
  segments : List String
  first : Nat
  segment : isSegmentName (normalized upper startWal) = true
  placed : number (normalized upper startWal) = some first
  archived : ∃ given ∈ segments, isSegmentName (normalized upper given) = true
  timeline : ∀ given ∈ segments, isSegmentName (normalized upper given) = true →
    timelineOf (normalized upper given) = timelineOf (normalized upper startWal)
  low : ∀ given ∈ segments, isSegmentName (normalized upper given) = true → (number (normalized upper given)).isSome = true

variable {upper}

def Archive.Has (archive : Archive upper) (place : Nat) : Prop :=
  ∃ given ∈ archive.segments, isSegmentName (normalized upper given) = true ∧
    number (normalized upper given) = some place

theorem mem_segmentNames {segments : List String} {name : String} :
    name ∈ segmentNames upper segments ↔ isSegmentName name = true ∧ ∃ given ∈ segments, normalized upper given = name := by
  simp [segmentNames, and_comm]

theorem segmentNames_ascending (segments : List String) : (segmentNames upper segments).Pairwise (· < ·) := by
  have sorted := sortedBy_pairwise id ((segments.map (normalized upper)).filter isSegmentName).dedup
  have once : (segmentNames upper segments).Nodup :=
    (sortedBy_perm id _).nodup_iff.mpr (List.nodup_dedup _)
  exact (sorted.and once).imp fun both => lt_of_le_of_ne both.1 both.2

namespace Archive

variable (archive : Archive upper)

def start : String := normalized upper archive.startWal

def mark : List Char := timelineOf archive.start

theorem length_mark : archive.mark.length = 8 := by
  have segment := archive.segment
  rw [isSegmentName, Bool.and_eq_true, decide_eq_true_eq] at segment
  have length : archive.start.toList.length = 24 := segment.1
  rw [mark, timelineOf, List.length_take, length]
  rfl

theorem mark_digits : ∀ c ∈ archive.mark, isHexDigit c = true := by
  have segment := archive.segment
  rw [isSegmentName, Bool.and_eq_true, List.all_eq_true] at segment
  exact fun c member => segment.2 c (List.mem_of_mem_take member)

theorem start_eq : archive.first < placeBound ∧ archive.start = nameOf archive.mark archive.first :=
  nameOf_number archive.segment archive.placed

/-- A place's segment is archived exactly when its name is among the names. -/
theorem has_iff (place : Nat) :
    archive.Has place ↔ place < placeBound ∧ nameOf archive.mark place ∈ segmentNames upper archive.segments := by
  constructor
  · rintro ⟨given, member, segment, found⟩
    obtain ⟨bound, spelled⟩ := nameOf_number segment found
    rw [archive.timeline given member segment] at spelled
    refine ⟨bound, mem_segmentNames.mpr ⟨?_, given, member, spelled⟩⟩
    exact (congrArg isSegmentName spelled).symm.trans segment
  · rintro ⟨bound, member⟩
    obtain ⟨segment, given, among, spelled⟩ := mem_segmentNames.mp member
    refine ⟨given, among, spelled ▸ segment, ?_⟩
    rw [spelled]
    exact number_nameOf archive.length_mark bound

/-- The names the loop goes over: those from the start on. -/
def after : List String := (segmentNames upper archive.segments).filter fun name => archive.start ≤ name

theorem mem_after {name : String} (member : name ∈ archive.after) :
    isSegmentName name = true ∧ timelineOf name = archive.mark ∧ (number name).isSome = true := by
  obtain ⟨segment, given, among, rfl⟩ := mem_segmentNames.mp (List.mem_filter.mp member).1
  exact ⟨segment, archive.timeline given among segment, archive.low given among segment⟩

theorem after_places : ∃ places : List Nat, archive.after = places.map (nameOf archive.mark) ∧
    (∀ place ∈ places, place < placeBound) ∧ places.Pairwise (· < ·) ∧
      ∀ place, place ∈ places ↔ archive.first ≤ place ∧ archive.Has place := by
  have width := archive.length_mark
  obtain ⟨firstBound, starts⟩ := archive.start_eq
  obtain ⟨places, bounds, same⟩ := exists_places (fun name member => (archive.mem_after member).1)
    (fun name member => (archive.mem_after member).2.1) (fun name member => (archive.mem_after member).2.2)
  have ordered : ∀ one < placeBound, ∀ other < placeBound,
      (nameOf archive.mark one < nameOf archive.mark other ↔ one < other) := fun one bound other bound' =>
    nameOf_lt_iff width archive.mark_digits bound bound'
  have ascending : places.Pairwise (· < ·) := by
    have names : archive.after.Pairwise (· < ·) := (segmentNames_ascending archive.segments).filter _
    rw [same, List.pairwise_map] at names
    exact names.imp_of_mem fun one other => (ordered _ (bounds _ one) _ (bounds _ other)).mp
  refine ⟨places, same, bounds, ascending, fun place => ?_⟩
  have behind : place < placeBound → (archive.start ≤ nameOf archive.mark place ↔ archive.first ≤ place) := by
    intro bound
    rw [starts, ← not_lt, ordered place bound archive.first firstBound, not_lt]
  have among : place < placeBound → (place ∈ places ↔ nameOf archive.mark place ∈ archive.after) := by
    intro bound
    rw [same, List.mem_map]
    constructor
    · exact fun member => ⟨place, member, rfl⟩
    · rintro ⟨other, member, spelled⟩
      have equal : some other = some place := by
        rw [← number_nameOf width (bounds other member), spelled, number_nameOf width bound]
      exact Option.some.inj equal ▸ member
  rw [archive.has_iff]
  constructor
  · intro member
    have bound := bounds place member
    obtain ⟨named, late⟩ := List.mem_filter.mp ((among bound).mp member)
    exact ⟨(behind bound).mp (of_decide_eq_true late), bound, named⟩
  · rintro ⟨late, bound, named⟩
    exact (among bound).mpr (List.mem_filter.mpr ⟨named, decide_eq_true ((behind bound).mpr late)⟩)

/-- What the check says of an archive it judges. -/
theorem walBreak_eq : postgresqlWalBreak upper archive.startWal archive.segments true =
    if archive.start ∉ archive.after then notArchived archive.start
    else holeBehind archive.mark (some archive.first) archive.after.tail := by
  have nonempty : (segmentNames upper archive.segments).isEmpty = false := by
    obtain ⟨given, member, segment⟩ := archive.archived
    have named := mem_segmentNames.mpr ⟨segment, given, member, rfl⟩
    rw [List.isEmpty_eq_false_iff]
    exact List.ne_nil_of_mem named
  have one : (archive.after.any fun name => timelineOf name ≠ archive.mark) = false := by
    rw [List.any_eq_false]
    intro name member
    simp [(archive.mem_after member).2.1]
  have segment := archive.segment
  have placed := archive.placed
  unfold postgresqlWalBreak
  dsimp only
  rw [segment, nonempty, placed, if_neg (by decide)]
  change (if (archive.after.any fun name => timelineOf name ≠ archive.mark) then _ else _) = _
  rw [one, if_neg (by decide)]
  rfl

end Archive

theorem notArchived_ne (start : String) : notArchived start ≠ "" := by
  unfold notArchived
  iterate 2 refine append_ne_empty _ ?_
  decide

theorem segmentMissing_ne (timeline : List Char) (missing : Nat) (name : String) :
    segmentMissing timeline missing name ≠ "" := by
  unfold segmentMissing
  iterate 4 refine append_ne_empty _ ?_
  decide

/-- What the loop says of an archive whose start is there. -/
theorem Archive.walBreak_of_start (archive : Archive upper) (there : archive.Has archive.first) :
    ∃ rest : List Nat, (archive.first :: rest).Pairwise (· < ·) ∧
      (∀ place, place ∈ archive.first :: rest ↔ archive.first ≤ place ∧ archive.Has place) ∧
      postgresqlWalBreak upper archive.startWal archive.segments true =
        ((firstHole archive.first rest).map fun hole =>
          segmentMissing archive.mark hole.1 (nameOf archive.mark hole.2)).getD "" := by
  obtain ⟨places, same, bounds, ascending, members⟩ := archive.after_places
  obtain ⟨firstBound, starts⟩ := archive.start_eq
  have among := (members archive.first).mpr ⟨le_rfl, there⟩
  cases places with
  | nil => exact absurd among List.not_mem_nil
  | cons place rest =>
    have least : place = archive.first := by
      have late := ((members place).mp List.mem_cons_self).1
      rcases List.mem_cons.mp among with own | later
      · exact own.symm
      · exact absurd ((List.pairwise_cons.mp ascending).1 _ later) (not_lt.mpr late)
    subst least
    refine ⟨rest, ascending, members, ?_⟩
    have head : archive.start ∈ archive.after := by
      rw [same, starts]
      exact List.mem_cons_self
    rw [archive.walBreak_eq, if_neg (not_not.mpr head), same, List.map_cons, List.tail_cons]
    exact holeBehind_map archive.length_mark _ (List.forall_mem_cons.mp bounds).2

/-- No break is found exactly where the start and every segment from it to each archived one are archived; and what is
named as missing lies between the start and an archived segment and is not archived. -/
theorem walBreak_is_first_hole (archive : Archive upper) :
    (postgresqlWalBreak upper archive.startWal archive.segments true = "" ↔
      archive.Has archive.first ∧
        ∀ newest, archive.Has newest → ∀ place, archive.first ≤ place → place ≤ newest → archive.Has place) ∧
    (postgresqlWalBreak upper archive.startWal archive.segments true = "" ∨
      (postgresqlWalBreak upper archive.startWal archive.segments true = notArchived archive.start ∧
        ¬archive.Has archive.first) ∨
      ∃ missing newest, postgresqlWalBreak upper archive.startWal archive.segments true =
          segmentMissing archive.mark missing (nameOf archive.mark newest) ∧
        archive.first < missing ∧ missing < newest ∧ archive.Has newest ∧ ¬archive.Has missing) := by
  by_cases there : archive.Has archive.first
  · obtain ⟨rest, ascending, members, broken⟩ := archive.walBreak_of_start there
    cases found : firstHole archive.first rest with
    | none =>
        have whole : postgresqlWalBreak upper archive.startWal archive.segments true = "" := by
          rw [broken, found]
          rfl
        refine ⟨iff_of_true whole ⟨there, ?_⟩, Or.inl whole⟩
        intro newest archived place late below
        rcases eq_or_lt_of_le late with rfl | above
        · exact there
        · have listed := (members newest).mpr ⟨late.trans below, archived⟩
          have behind : newest ∈ rest := (List.mem_cons.mp listed).resolve_left (above.trans_le below).ne'
          have next := firstHole_none found newest behind place above below
          exact ((members place).mp (List.mem_cons_of_mem _ next)).2
    | some hole =>
        obtain ⟨missing, newest⟩ := hole
        obtain ⟨low, high, behind, absent⟩ := firstHole_some ascending found
        have named : postgresqlWalBreak upper archive.startWal archive.segments true =
            segmentMissing archive.mark missing (nameOf archive.mark newest) := by
          rw [broken, found]
          rfl
        have archived := ((members newest).mp (List.mem_cons_of_mem _ behind)).2
        have lost : ¬archive.Has missing := by
          intro held
          rcases List.mem_cons.mp ((members missing).mpr ⟨low.le, held⟩) with same | among
          · exact absurd same low.ne'
          · exact absent among
        refine ⟨iff_of_false ?_ ?_, Or.inr (Or.inr ⟨missing, newest, named, low, high, archived, lost⟩)⟩
        · rw [named]
          exact segmentMissing_ne _ _ _
        · exact fun whole => lost (whole.2 newest archived missing low.le high.le)
  · have outside : archive.start ∉ archive.after := by
      rw [archive.start_eq.2]
      intro member
      exact there ((archive.has_iff _).mpr ⟨archive.start_eq.1, (List.mem_filter.mp member).1⟩)
    have named : postgresqlWalBreak upper archive.startWal archive.segments true = notArchived archive.start := by
      rw [archive.walBreak_eq, if_pos outside]
    refine ⟨iff_of_false ?_ fun whole => there whole.1, Or.inr (Or.inl ⟨named, there⟩)⟩
    rw [named]
    exact notArchived_ne _

section Instances

/-- The first segment of the second log file is lost. -/
def wrapped : Archive asciiUpper where
  startWal := "0000000100000000000000FE"
  segments := ["0000000100000000000000FE", "0000000100000000000000ff", "00000002.history", "000000010000000100000001"]
  first := 254
  segment := by decide +kernel
  placed := by decide +kernel
  archived := by decide +kernel
  timeline := by decide +kernel
  low := by decide +kernel

theorem walBreak_is_first_hole_wrapped :
    postgresqlWalBreak asciiUpper wrapped.startWal wrapped.segments true ≠ "" ∧ ¬wrapped.Has 256 := by
  have lost : ¬wrapped.Has 256 := by
    unfold Archive.Has
    decide +kernel
  refine ⟨fun unbroken => lost ?_, lost⟩
  refine ((walBreak_is_first_hole wrapped).1.mp unbroken).2 257 ?_ 256 (by decide) (by decide)
  unfold Archive.Has
  decide +kernel

/-- An archive of nothing, one of another timeline and one of larger segments are not judged, whatever they miss. -/
theorem unjudged_archives_hold :
    isSegmentName "000000010000000000000001" = true ∧
      postgresqlWalBreak asciiUpper "000000010000000000000001" [] true = "" ∧
      postgresqlWalBreak asciiUpper "000000010000000000000001" ["000000020000000000000005"] true = "" ∧
      postgresqlWalBreak asciiUpper "000000010000000000000001"
        ["000000010000000000000001", "000000010000000000000103"] true = "" := by
  decide +kernel

end Instances

end DbaBrain.Lib.WalSegments
