import DbaBrain.Foundation.Double
import DbaBrain.Foundation.Selection

/-!
# Two readings of a counter, subtracted

`interval_delta` subtracts from the newest sample the nearest earlier one it may
be subtracted from, `window_delta` the farthest one in a window, and
`consecutive_deltas` each sample from the next.  Only the two ends are compared:
a counter that fell between them and has since climbed past the earlier end is
subtracted across its restart.  Each function is shown to answer honestly
exactly where no such pair is the one it takes.
-/

namespace DbaBrain.Lib.IntervalRates

open DbaBrain.Foundation.Selection (firstSeen mem_firstSeen sortedBy mem_sortedBy sortedBy_filter sortedBy_pairwise
  sortedBy_perm throughFirst)

/-- The numbers `as_float` reads: a difference is below zero exactly where the first number is the smaller. No number
is less than, or at least, one that is not a number. -/
structure Numbers (V : Type) where
  sub : V → V → V
  zero : V
  less : V → V → Bool
  reaches : V → V → Bool
  less_sub : ∀ first second, less (sub first second) zero = less first second
  not_less_of_reaches : ∀ value, reaches value zero = true → less value zero = false

/-- A stored sample: its time and its counters as they are read, absent where they cannot be. -/
structure Sample (V : Type) where
  collectedAt : Option ℚ
  countersSince : String
  counters : String → Option V

/-- A sample with a time, and the row it was stored in. -/
structure Reading (V : Type) where
  row : Nat
  stamp : ℚ
  countersSince : String
  values : String → Option V

structure Delta (V : Type) where
  seconds : ℚ
  start : ℚ
  stop : ℚ
  deltas : List (String × V)
  dropped : List String
  countersSince : String

/-- A delta, with the two readings it was made of. -/
structure Found (V : Type) where
  newest : Reading V
  older : Reading V
  delta : Delta V

variable {V : Type}

/-! ## The subtraction -/

/-- The samples with a time, in the order they were given. -/
def readings (samples : List (Sample V)) : List (Reading V) :=
  samples.zipIdx.filterMap fun (sample, row) =>
    sample.collectedAt.map fun stamp => ⟨row, stamp, sample.countersSince, sample.counters⟩

/-- All counters that are asked for were read. -/
def complete (fields : List String) (reading : Reading V) : Bool :=
  fields.all fun name => (reading.values name).isSome

def usable (samples : List (Sample V)) (fields : List String) : List (Reading V) :=
  sortedBy Reading.stamp ((readings samples).filter (complete fields))

/-- `round(seconds, 1)`. -/
def roundTenth (seconds : ℚ) : ℚ := Foundation.Double.nearest (seconds * 10) / 10

variable (numbers : Numbers V)

def differences (newest older : Reading V) (fields : List String) : List (String × V) :=
  (firstSeen fields).filterMap fun name => do
    let now ← newest.values name
    let before ← older.values name
    return (name, numbers.sub now before)

def answer (newest older : Reading V) (deltas : List (String × V)) (dropped : List String) : Found V :=
  ⟨newest, older, ⟨roundTenth (newest.stamp - older.stamp), older.stamp, newest.stamp, deltas, dropped,
    newest.countersSince⟩⟩

def pair (newest older : Reading V) (fields : List String) (maxSeconds : ℚ) (allowPartial : Bool) :
    Option (Found V) :=
  let seconds := newest.stamp - older.stamp
  if seconds ≤ 0 ∨ maxSeconds < seconds then none
  else if newest.countersSince ≠ "" ∧ older.countersSince ≠ "" ∧ newest.countersSince ≠ older.countersSince then none
  else
    let deltas := differences numbers newest older fields
    let dropped := sortedBy id ((deltas.filter fun entry => numbers.less entry.2 numbers.zero).map Prod.fst)
    if dropped = [] then some (answer newest older deltas dropped)
    else if !allowPartial then none
    else
      let kept := deltas.filter fun entry => numbers.reaches entry.2 numbers.zero
      if kept = [] then none else some (answer newest older kept dropped)

/-- The walk of `interval_delta`, backwards from the newest sample. -/
def nearest (newest : Reading V) (fields : List String) (maxSeconds : ℚ) (allowPartial : Bool) :
    List (Reading V) → Option (Found V)
  | [] => none
  | older :: rest =>
      if maxSeconds < newest.stamp - older.stamp then none
      else
        match pair numbers newest older fields maxSeconds allowPartial with
        | some found => some found
        | none => nearest newest fields maxSeconds allowPartial rest

def intervalFound (samples : List (Sample V)) (fields : List String) (maxPairHours : ℚ) (allowPartial : Bool) :
    Option (Found V) :=
  if (usable samples fields).length < 2 then none
  else
    (usable samples fields).getLast?.bind fun newest =>
      nearest numbers newest fields (maxPairHours * 3600) allowPartial (usable samples fields).dropLast.reverse

/-- The pair, where it covers enough of the window. -/
def spanning (newest older : Reading V) (fields : List String) (windowHours minFraction : ℚ) (allowPartial : Bool) :
    Option (Found V) :=
  (pair numbers newest older fields (windowHours * 3600) allowPartial).filter fun found =>
    windowHours * 3600 * minFraction ≤ found.delta.seconds

def windowFound (samples : List (Sample V)) (fields : List String) (windowHours minFraction : ℚ)
    (allowPartial : Bool) : Option (Found V) :=
  if (usable samples fields).length < 2 then none
  else
    (usable samples fields).getLast?.bind fun newest =>
      (usable samples fields).dropLast.findSome? fun older =>
        spanning numbers newest older fields windowHours minFraction allowPartial

def consecutiveFound (samples : List (Sample V)) (fields : List String) (maxPairHours : ℚ) : List (Found V) :=
  ((usable samples fields).zip (usable samples fields).tail).filterMap fun (older, newest) =>
    pair numbers newest older fields (maxPairHours * 3600) false

def intervalDelta (samples : List (Sample V)) (fields : List String) (maxPairHours : ℚ) (allowPartial : Bool) :
    Option (Delta V) :=
  (intervalFound numbers samples fields maxPairHours allowPartial).map Found.delta

def windowDelta (samples : List (Sample V)) (fields : List String) (windowHours minFraction : ℚ)
    (allowPartial : Bool) : Option (Delta V) :=
  (windowFound numbers samples fields windowHours minFraction allowPartial).map Found.delta

def consecutiveDeltas (samples : List (Sample V)) (fields : List String) (maxPairHours : ℚ) : List (Delta V) :=
  (consecutiveFound numbers samples fields maxPairHours).map Found.delta

/-! ## Honest deltas -/

/-- The stored samples in time order. -/
def stored (samples : List (Sample V)) : List (Reading V) := sortedBy Reading.stamp (readings samples)

def stretch (samples : List (Sample V)) (older newest : Reading V) : List (Reading V) :=
  throughFirst (fun reading => reading.row = newest.row)
    ((stored samples).dropWhile fun reading => reading.row ≠ older.row)

/-- A later value of the counter is lower than an earlier one. -/
def Falls (name : String) (between : List (Reading V)) : Prop :=
  ¬ (between.filterMap fun reading => reading.values name).Pairwise fun earlier later =>
    numbers.less later earlier = false

instance (name : String) (between : List (Reading V)) : Decidable (Falls numbers name between) :=
  inferInstanceAs (Decidable (¬ _))

/-- The delta is the difference of two stored samples, no counter of it is negative, and none fell between the two. -/
structure Honest (samples : List (Sample V)) (found : Found V) : Prop where
  ends : found.newest ∈ stored samples ∧ found.older ∈ stored samples ∧ found.older.stamp < found.newest.stamp
  times : found.delta.start = found.older.stamp ∧ found.delta.stop = found.newest.stamp
  difference : ∀ entry ∈ found.delta.deltas, ∃ now ∈ found.newest.values entry.1,
    ∃ before ∈ found.older.values entry.1, entry.2 = numbers.sub now before
  nonnegative : ∀ entry ∈ found.delta.deltas, numbers.less entry.2 numbers.zero = false
  climbs : ∀ entry ∈ found.delta.deltas, ¬ Falls numbers entry.1 (stretch samples found.older found.newest)

/-- A counter of the delta fell between its two readings. -/
def AcrossFall (samples : List (Sample V)) (found : Found V) : Prop :=
  ∃ entry ∈ found.delta.deltas, Falls numbers entry.1 (stretch samples found.older found.newest)

variable {numbers} {samples : List (Sample V)} {fields : List String} {newest older : Reading V} {maxSeconds : ℚ}
  {allowPartial : Bool}

theorem mem_differences {entry : String × V} (member : entry ∈ differences numbers newest older fields) :
    entry.1 ∈ fields ∧ ∃ now ∈ newest.values entry.1, ∃ before ∈ older.values entry.1, entry.2 = numbers.sub now before := by
  obtain ⟨name, asked, made⟩ := List.mem_filterMap.mp member
  simp only [Option.pure_def, Option.bind_eq_bind, Option.bind_eq_some_iff, Option.some.injEq] at made
  obtain ⟨now, read, before, readBefore, rfl⟩ := made
  exact ⟨(mem_firstSeen fields name).mp asked, now, read, before, readBefore, rfl⟩

/-- What a pair that is not refused says of its two readings. -/
structure Subtracted (numbers : Numbers V) (fields : List String) (newest older : Reading V) (found : Found V) :
    Prop where
  later : found.newest = newest
  former : found.older = older
  earlier : older.stamp < newest.stamp
  times : found.delta.start = older.stamp ∧ found.delta.stop = newest.stamp
  difference : ∀ entry ∈ found.delta.deltas, entry.1 ∈ fields ∧ ∃ now ∈ newest.values entry.1,
    ∃ before ∈ older.values entry.1, entry.2 = numbers.sub now before
  nonnegative : ∀ entry ∈ found.delta.deltas, numbers.less entry.2 numbers.zero = false

variable {found : Found V} {before : List (Reading V)} {maxPairHours : ℚ}

theorem subtracted_of_pair (made : pair numbers newest older fields maxSeconds allowPartial = some found) :
    Subtracted numbers fields newest older found := by
  unfold pair at made
  dsimp only at made
  split at made
  · cases made
  · rename_i inside
    have earlier : older.stamp < newest.stamp := sub_pos.mp (not_le.mp (not_or.mp inside).1)
    split at made
    · cases made
    · split at made
      · rename_i none
        cases made
        refine ⟨rfl, rfl, earlier, ⟨rfl, rfl⟩, fun entry member => mem_differences member, ?_⟩
        intro entry member
        by_contra negative
        have dropped : entry.1 ∈ sortedBy id (((differences numbers newest older fields).filter fun entry =>
            numbers.less entry.2 numbers.zero).map Prod.fst) := by
          rw [mem_sortedBy]
          exact List.mem_map_of_mem (List.mem_filter.mpr ⟨member, Bool.not_eq_false _ ▸ negative⟩)
        rw [none] at dropped
        cases dropped
      · split at made
        · cases made
        · split at made
          · cases made
          · cases made
            refine ⟨rfl, rfl, earlier, ⟨rfl, rfl⟩, ?_, ?_⟩
            · intro entry member
              exact mem_differences (List.mem_filter.mp member).1
            · intro entry member
              exact numbers.not_less_of_reaches _ (List.mem_filter.mp member).2

theorem mem_stored_of_usable {reading : Reading V} (member : reading ∈ usable samples fields) :
    reading ∈ stored samples := by
  rw [usable, mem_sortedBy] at member
  rw [stored, mem_sortedBy]
  exact (List.mem_filter.mp member).1

/-- A pair of usable samples is honest exactly where no counter of its delta fell between them. -/
theorem honest_iff_of_pair (newestUsable : newest ∈ usable samples fields) (olderUsable : older ∈ usable samples fields)
    (made : pair numbers newest older fields maxSeconds allowPartial = some found) :
    Honest numbers samples found ↔ ¬ AcrossFall numbers samples found := by
  have subtracted := subtracted_of_pair made
  obtain ⟨rfl⟩ := subtracted.later
  obtain ⟨rfl⟩ := subtracted.former
  constructor
  · rintro honest ⟨entry, member, falls⟩
    exact honest.climbs entry member falls
  · intro clear
    exact {
      ends := ⟨mem_stored_of_usable newestUsable, mem_stored_of_usable olderUsable, subtracted.earlier⟩
      times := subtracted.times
      difference := fun entry member => (subtracted.difference entry member).2
      nonnegative := subtracted.nonnegative
      climbs := fun entry member falls => clear ⟨entry, member, falls⟩ }

/-! ## The nearest pair -/

theorem pair_of_wide (wide : maxSeconds < newest.stamp - older.stamp) :
    pair numbers newest older fields maxSeconds allowPartial = none := by
  unfold pair
  exact if_pos (Or.inr wide)

/-- Everything behind a sample that is too far back is further back: the walk finds the first pair of all. -/
theorem nearest_eq {behind : List (Reading V)}
    (sorted : behind.Pairwise fun later earlier => earlier.stamp ≤ later.stamp) :
    nearest numbers newest fields maxSeconds allowPartial behind =
      behind.findSome? fun older => pair numbers newest older fields maxSeconds allowPartial := by
  induction behind with
  | nil => rfl
  | cons older rest ih =>
    obtain ⟨below, others⟩ := List.pairwise_cons.mp sorted
    rw [nearest, List.findSome?_cons]
    by_cases wide : maxSeconds < newest.stamp - older.stamp
    · rw [if_pos wide, pair_of_wide wide]
      symm
      rw [List.findSome?_eq_none_iff]
      intro further member
      exact pair_of_wide (wide.trans_le (sub_le_sub_left (below further member) _))
    · rw [if_neg wide, ih others]
      cases pair numbers newest older fields maxSeconds allowPartial with
      | none => rfl
      | some found => rfl

theorem usable_sorted (samples : List (Sample V)) (fields : List String) :
    (usable samples fields).Pairwise fun first second => first.stamp ≤ second.stamp :=
  sortedBy_pairwise Reading.stamp _

theorem intervalFound_of_split (split : usable samples fields = before ++ [newest]) :
    intervalFound numbers samples fields maxPairHours allowPartial =
      nearest numbers newest fields (maxPairHours * 3600) allowPartial before.reverse := by
  rw [intervalFound, split, List.getLast?_concat, List.dropLast_concat, List.length_append, List.length_singleton]
  cases before with
  | nil => rfl
  | cons first rest => rw [if_neg (by simp), Option.bind_some]

variable {windowHours minFraction : ℚ} {α : Type*}

theorem windowFound_of_split (split : usable samples fields = before ++ [newest]) :
    windowFound numbers samples fields windowHours minFraction allowPartial =
      before.findSome? fun older => spanning numbers newest older fields windowHours minFraction allowPartial := by
  rw [windowFound, split, List.getLast?_concat, List.dropLast_concat, List.length_append, List.length_singleton]
  cases before with
  | nil => rfl
  | cons first rest => rw [if_neg (by simp), Option.bind_some]

theorem pair_of_spanning (made : spanning numbers newest older fields windowHours minFraction allowPartial = some found) :
    pair numbers newest older fields (windowHours * 3600) allowPartial = some found :=
  (Option.filter_eq_some_iff.mp made).1

theorem usable_empty_or_split (samples : List (Sample V)) (fields : List String) :
    usable samples fields = [] ∨ ∃ before newest, usable samples fields = before ++ [newest] :=
  List.eq_nil_or_concat' _

/-! ## When the deltas are honest -/

/-- Each earlier sample the newest can be subtracted from, across a fall of a counter, has a nearer one the newest can
be subtracted from. -/
def NearerBehindFalls (numbers : Numbers V) (samples : List (Sample V)) (fields : List String) (maxPairHours : ℚ)
    (allowPartial : Bool) : Prop :=
  ∀ front older nearer newest, usable samples fields = front ++ older :: nearer ++ [newest] →
    ∀ found ∈ pair numbers newest older fields (maxPairHours * 3600) allowPartial, AcrossFall numbers samples found →
      ∃ sample ∈ nearer, (pair numbers newest sample fields (maxPairHours * 3600) allowPartial).isSome = true

/-- Each sample that covers enough of the window, across a fall of a counter, has an earlier one that does too. -/
def EarlierBeforeFalls (numbers : Numbers V) (samples : List (Sample V)) (fields : List String)
    (windowHours minFraction : ℚ) (allowPartial : Bool) : Prop :=
  ∀ farther older back newest, usable samples fields = farther ++ older :: back ++ [newest] →
    ∀ found ∈ spanning numbers newest older fields windowHours minFraction allowPartial,
      AcrossFall numbers samples found →
        ∃ sample ∈ farther, (spanning numbers newest sample fields windowHours minFraction allowPartial).isSome = true

/-- No counter fell and climbed again among the samples left out between two neighbours that can be subtracted. -/
def NoneLeftOutAcrossFalls (numbers : Numbers V) (samples : List (Sample V)) (fields : List String)
    (maxPairHours : ℚ) : Prop :=
  ∀ front older newest back, usable samples fields = front ++ older :: newest :: back →
    ∀ found ∈ pair numbers newest older fields (maxPairHours * 3600) false, ¬ AcrossFall numbers samples found

/-- The first sample of some that the newest is subtracted from makes an honest delta exactly where each of them that
would make one across a fall has such a sample before it. -/
theorem findSome_honest_iff {taken : Reading V → Option (Found V)} {order : List (Reading V)}
    (split : usable samples fields = before ++ [newest]) (inside : ∀ older ∈ order, older ∈ before)
    (made : ∀ older, ∀ found ∈ taken older, pair numbers newest older fields maxSeconds allowPartial = some found) :
    (∀ found ∈ order.findSome? taken, Honest numbers samples found) ↔
      ∀ front older back, order = front ++ older :: back → ∀ found ∈ taken older, AcrossFall numbers samples found →
        ∃ sample ∈ front, (taken sample).isSome = true := by
  have newestUsable : newest ∈ usable samples fields := by
    rw [split]
    exact List.mem_append_right _ (List.mem_singleton_self _)
  have honest_iff {older : Reading V} (member : older ∈ order) {found : Found V} (answer : found ∈ taken older) :
      Honest numbers samples found ↔ ¬ AcrossFall numbers samples found := by
    refine honest_iff_of_pair newestUsable ?_ (made older found answer)
    rw [split]
    exact List.mem_append_left _ (inside older member)
  constructor
  · rintro honest front older back rfl found answer falls
    by_contra alone
    have refused : ∀ sample ∈ front, taken sample = none := by
      intro sample member
      by_contra some
      exact alone ⟨sample, member, Option.isSome_iff_ne_none.mpr some⟩
    have first := List.findSome?_eq_some_iff.mpr ⟨front, older, back, rfl, Option.mem_def.mp answer, refused⟩
    exact (honest_iff (by simp) answer).mp (honest found first) falls
  · intro clear found answered
    obtain ⟨front, older, back, cut, answer, refused⟩ := List.findSome?_eq_some_iff.mp answered
    rw [honest_iff (by rw [cut]; simp) answer]
    intro falls
    obtain ⟨sample, member, some⟩ := clear front older back cut found answer falls
    rw [refused sample member] at some
    cases some

theorem intervalFound_honest_iff (numbers : Numbers V) (samples : List (Sample V)) (fields : List String)
    (maxPairHours : ℚ) (allowPartial : Bool) :
    (∀ found ∈ intervalFound numbers samples fields maxPairHours allowPartial, Honest numbers samples found) ↔
      NearerBehindFalls numbers samples fields maxPairHours allowPartial := by
  unfold NearerBehindFalls
  rcases usable_empty_or_split samples fields with empty | ⟨before, newest, split⟩
  · simp [intervalFound, empty]
  · have sorted := usable_sorted samples fields
    rw [split] at sorted
    rw [intervalFound_of_split split, nearest_eq (List.pairwise_reverse.mpr (List.pairwise_append.mp sorted).1),
      findSome_honest_iff split (fun _ member => List.mem_reverse.mp member) fun _ _ answer => answer]
    constructor
    · intro clear front older nearer last cut found made falls
      obtain ⟨rfl, same⟩ := List.append_inj' (split.symm.trans cut) rfl
      cases same
      obtain ⟨sample, member, some⟩ := clear nearer.reverse older front.reverse (by simp) found made falls
      exact ⟨sample, List.mem_reverse.mp member, some⟩
    · intro clear nearer older front cut found made falls
      have ordered : before = front.reverse ++ older :: nearer.reverse := by
        rw [← List.reverse_reverse before, cut]
        simp
      obtain ⟨sample, member, some⟩ := clear front.reverse older nearer.reverse newest (by rw [split, ordered]) found made
        falls
      exact ⟨sample, List.mem_reverse.mp member, some⟩

theorem windowFound_honest_iff (numbers : Numbers V) (samples : List (Sample V)) (fields : List String)
    (windowHours minFraction : ℚ) (allowPartial : Bool) :
    (∀ found ∈ windowFound numbers samples fields windowHours minFraction allowPartial,
        Honest numbers samples found) ↔
      EarlierBeforeFalls numbers samples fields windowHours minFraction allowPartial := by
  unfold EarlierBeforeFalls
  rcases usable_empty_or_split samples fields with empty | ⟨before, newest, split⟩
  · simp [windowFound, empty]
  · rw [windowFound_of_split split, findSome_honest_iff split (fun _ member => member) fun _ _ => pair_of_spanning]
    constructor
    · intro clear farther older back last cut
      obtain ⟨rfl, same⟩ := List.append_inj' (split.symm.trans cut) rfl
      cases same
      exact clear farther older back rfl
    · intro clear farther older back cut
      exact clear farther older back newest (by rw [split, cut])

/-- Two neighbours of a list are a place of it and the next. -/
theorem mem_zip_tail_iff {xs : List α} {first second : α} :
    (first, second) ∈ xs.zip xs.tail ↔ ∃ front back, xs = front ++ first :: second :: back := by
  induction xs with
  | nil => simp
  | cons x rest ih =>
    cases rest with
    | nil => simp [List.cons_eq_append_iff]
    | cons y more =>
      rw [List.tail_cons, List.zip_cons_cons, List.mem_cons]
      change _ ∨ (first, second) ∈ (y :: more).zip (y :: more).tail ↔ _
      rw [ih]
      constructor
      · rintro (same | ⟨front, back, split⟩)
        · cases same
          exact ⟨[], more, rfl⟩
        · exact ⟨x :: front, back, by rw [split]; rfl⟩
      · rintro ⟨front, back, split⟩
        cases front with
        | nil =>
          simp only [List.nil_append, List.cons.injEq] at split
          exact Or.inl (by rw [split.1, split.2.1])
        | cons head others =>
          exact Or.inr ⟨others, back, (List.cons.inj split).2⟩

theorem consecutiveFound_honest_iff (numbers : Numbers V) (samples : List (Sample V)) (fields : List String)
    (maxPairHours : ℚ) :
    (∀ found ∈ consecutiveFound numbers samples fields maxPairHours, Honest numbers samples found) ↔
      NoneLeftOutAcrossFalls numbers samples fields maxPairHours := by
  constructor
  · intro honest front older newest back split found made
    have member (reading : Reading V) (inside : reading ∈ front ++ older :: newest :: back) :
        reading ∈ usable samples fields := split ▸ inside
    rw [← honest_iff_of_pair (member newest (by simp)) (member older (by simp)) made]
    refine honest found (List.mem_filterMap.mpr ⟨(older, newest), ?_, made⟩)
    exact mem_zip_tail_iff.mpr ⟨front, back, split⟩
  · intro clear found answered
    obtain ⟨⟨older, newest⟩, neighbours, made⟩ := List.mem_filterMap.mp answered
    obtain ⟨front, back, split⟩ := mem_zip_tail_iff.mp neighbours
    have member (reading : Reading V) (inside : reading ∈ front ++ older :: newest :: back) :
        reading ∈ usable samples fields := split ▸ inside
    rw [honest_iff_of_pair (member newest (by simp)) (member older (by simp)) made]
    exact clear front older newest back split found made

/-! ## What the three functions return -/

theorem exists_mem_map_iff {β : Type*} {made : α → β} {good : α → Prop} {taken : Option α} :
    (∀ value ∈ taken.map made, ∃ source ∈ taken, made source = value ∧ good source) ↔
      ∀ source ∈ taken, good source := by
  cases taken with
  | none => simp
  | some source => simp

/-- Two places of a list sorted by time that are each followed by a later one are the same where the times are. -/
theorem index_eq_of_stamp {xs : List (Reading V)} {i j : Nat}
    (sorted : xs.Pairwise fun first second => first.stamp ≤ second.stamp) (iInside : i + 1 < xs.length)
    (jInside : j + 1 < xs.length) (iRises : xs[i].stamp < xs[i + 1].stamp) (jRises : xs[j].stamp < xs[j + 1].stamp)
    (same : xs[i].stamp = xs[j].stamp) : i = j := by
  have ordered {first second : Nat} (firstInside : first < xs.length) (secondInside : second < xs.length)
      (before : first ≤ second) : xs[first].stamp ≤ xs[second].stamp := by
    rcases before.eq_or_lt with rfl | before
    · exact le_refl _
    · exact List.pairwise_iff_getElem.mp sorted first second firstInside secondInside before
  rcases Nat.lt_trichotomy i j with below | same' | above
  · exact absurd (iRises.trans_le (ordered iInside (by omega) below)) same.not_lt
  · exact same'
  · exact absurd (jRises.trans_le (ordered jInside (by omega) above)) same.symm.not_lt

/-- Two neighbours that are subtracted start at times of their own: a delta names the pair it was made of. -/
theorem consecutiveFound_injOn :
    Set.InjOn Found.delta {found | found ∈ consecutiveFound numbers samples fields maxPairHours} := by
  rintro first firstTaken second secondTaken same
  obtain ⟨⟨older, newest⟩, neighbours, made⟩ := List.mem_filterMap.mp firstTaken
  obtain ⟨⟨older', newest'⟩, neighbours', made'⟩ := List.mem_filterMap.mp secondTaken
  obtain ⟨i, inside, place⟩ := List.mem_iff_getElem.mp neighbours
  obtain ⟨j, inside', place'⟩ := List.mem_iff_getElem.mp neighbours'
  rw [List.length_zip, List.length_tail] at inside inside'
  simp only [List.getElem_zip, List.getElem_tail, Prod.mk.injEq] at place place'
  obtain ⟨rfl, rfl⟩ := place
  obtain ⟨rfl, rfl⟩ := place'
  have subtracted := subtracted_of_pair made
  have subtracted' := subtracted_of_pair made'
  have start : (usable samples fields)[i].stamp = (usable samples fields)[j].stamp := by
    rw [← subtracted.times.1, ← subtracted'.times.1, same]
  obtain rfl := index_eq_of_stamp (usable_sorted samples fields) (by omega) (by omega) subtracted.earlier
    subtracted'.earlier start
  exact Option.some.inj (made.symm.trans made')

theorem forall_mem_consecutiveDeltas_iff {good : Found V → Prop} :
    (∀ delta ∈ consecutiveDeltas numbers samples fields maxPairHours,
        ∃ found ∈ consecutiveFound numbers samples fields maxPairHours, found.delta = delta ∧ good found) ↔
      ∀ found ∈ consecutiveFound numbers samples fields maxPairHours, good found := by
  constructor
  · intro each found taken
    obtain ⟨other, otherTaken, same, fine⟩ := each found.delta (List.mem_map_of_mem taken)
    exact consecutiveFound_injOn otherTaken taken same ▸ fine
  · intro each delta returned
    obtain ⟨found, taken, same⟩ := List.mem_map.mp returned
    exact ⟨found, taken, same, each found taken⟩

/-- Every delta the three functions return was made of two samples it is honest of exactly where, for `interval_delta`,
each earlier sample it could take across a fall has a nearer one it can take; for `window_delta`, each has an earlier
one; and for `consecutive_deltas`, no fall lies among the samples left out between two neighbours it subtracts. -/
theorem deltas_honest_iff (numbers : Numbers V) (samples : List (Sample V)) (fields : List String)
    (maxPairHours windowHours minFraction : ℚ) (allowPartial : Bool) :
    ((∀ delta ∈ intervalDelta numbers samples fields maxPairHours allowPartial,
          ∃ found ∈ intervalFound numbers samples fields maxPairHours allowPartial,
            found.delta = delta ∧ Honest numbers samples found) ↔
        NearerBehindFalls numbers samples fields maxPairHours allowPartial) ∧
      ((∀ delta ∈ windowDelta numbers samples fields windowHours minFraction allowPartial,
          ∃ found ∈ windowFound numbers samples fields windowHours minFraction allowPartial,
            found.delta = delta ∧ Honest numbers samples found) ↔
        EarlierBeforeFalls numbers samples fields windowHours minFraction allowPartial) ∧
      ((∀ delta ∈ consecutiveDeltas numbers samples fields maxPairHours,
          ∃ found ∈ consecutiveFound numbers samples fields maxPairHours,
            found.delta = delta ∧ Honest numbers samples found) ↔
        NoneLeftOutAcrossFalls numbers samples fields maxPairHours) := by
  refine ⟨?_, ?_, ?_⟩
  · rw [intervalDelta, exists_mem_map_iff]
    exact intervalFound_honest_iff numbers samples fields maxPairHours allowPartial
  · rw [windowDelta, exists_mem_map_iff]
    exact windowFound_honest_iff numbers samples fields windowHours minFraction allowPartial
  · rw [forall_mem_consecutiveDeltas_iff]
    exact consecutiveFound_honest_iff numbers samples fields maxPairHours

section Instances

def integers : Numbers Int where
  sub first second := first - second
  zero := 0
  less first second := first < second
  reaches first second := second ≤ first
  less_sub first second := by simp [sub_neg]
  not_less_of_reaches value reached := by simpa using reached

def waits (hours value : Int) : Sample Int := ⟨some (hours * 3600), "", fun _ => some value⟩

/-- A counter that stood at 5, climbed to 100 and was restarted to 10. -/
def restarted : List (Sample Int) := [waits 0 5, waits 1 100, waits 2 10]

/-- The newest reading is below the one before it, and is subtracted from the one before that. -/
theorem restart_is_spanned : ∃ delta ∈ intervalDelta integers restarted ["waits"] 3 false,
    delta.deltas = [("waits", 5)] ∧
      ∀ found ∈ intervalFound integers restarted ["waits"] 3 false, found.delta = delta →
        ¬ Honest integers restarted found := by
  have taken : (intervalFound integers restarted ["waits"] 3 false).map (fun found => found.delta.deltas) =
      some [("waits", 5)] := by
    decide +kernel
  have across : (intervalFound integers restarted ["waits"] 3 false).any (fun found =>
      Falls integers "waits" (stretch restarted found.older found.newest)) = true := by
    decide +kernel
  unfold intervalDelta
  cases answered : intervalFound integers restarted ["waits"] 3 false with
  | none =>
      rw [answered] at taken
      cases taken
  | some found =>
      rw [answered] at taken across
      have deltas : found.delta.deltas = [("waits", 5)] := Option.some.inj taken
      refine ⟨found.delta, rfl, deltas, ?_⟩
      intro other answer _ honest
      cases answer
      refine honest.climbs ("waits", 5) (deltas ▸ List.mem_singleton_self _) ?_
      exact of_decide_eq_true across

end Instances

end DbaBrain.Lib.IntervalRates
