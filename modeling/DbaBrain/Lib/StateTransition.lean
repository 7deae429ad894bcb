import DbaBrain.Foundation.Dict
import DbaBrain.Foundation.Selection
import DbaBrain.Foundation.Text

/-!
# What changed between two runs of one check

`diff_states` compares two maps from a key to its status. Each key that is bad
now stands in exactly one of its four lists of bad keys, and once; a recovery is
a key that both runs have; and the order in which the maps hold their keys says
nothing.
-/

namespace DbaBrain.Lib.StateTransition

open DbaBrain.Foundation
open DbaBrain.Foundation.Selection (sortedBy sortedBy_perm mem_sortedBy sortedBy_eq_of_perm)
open DbaBrain.Foundation.Text (strip)

structure StateDiff where
  newBad : List String
  recovered : List String
  worsened : List (String × String × String)
  improved : List (String × String × String)
  unchangedBad : List String
  vanishedBad : List String
  appearedOk : List String
  baseline : Bool

/-- The keys of the four lists a key that is bad now can stand in. -/
def StateDiff.badKeys (diff : StateDiff) : List String :=
  diff.newBad ++ diff.worsened.map Prod.fst ++ diff.improved.map Prod.fst ++ diff.unchangedBad

/- `str.upper`. -/

variable (upper : String → String)

def normalized (status : String) : String := upper (strip status)

/-- A status' place in `severity_order`, worst first; of one that is listed twice, the last. -/
def rank (severityOrder : List String) : Dict String Nat :=
  Dict.empty.update (severityOrder.zipIdx.map fun listed => (normalized upper listed.1, listed.2))

def severity (severityOrder : List String) (status : String) : Nat :=
  ((rank upper severityOrder).get? (normalized upper status)).getD (rank upper severityOrder).entries.length

def isBad (healthy : List String) (status : String) : Bool := normalized upper status ∉ healthy.map (normalized upper)

variable (severityOrder healthy : List String)

/-- One turn of the loop over the keys of this run. -/
def noteKey (baseline : Bool) (before : String → Option String) (diff : StateDiff) (entry : String × String) :
    StateDiff :=
  let (key, nowStatus) := entry
  match before key with
  | none =>
      if isBad upper healthy nowStatus && !baseline then { diff with newBad := diff.newBad ++ [key] }
      else if isBad upper healthy nowStatus then { diff with unchangedBad := diff.unchangedBad ++ [key] }
      else { diff with appearedOk := diff.appearedOk ++ [key] }
  | some wasStatus =>
      if isBad upper healthy wasStatus && !isBad upper healthy nowStatus then
        { diff with recovered := diff.recovered ++ [key] }
      else if !isBad upper healthy wasStatus && isBad upper healthy nowStatus then
        { diff with newBad := diff.newBad ++ [key] }
      else if isBad upper healthy nowStatus then
        if severity upper severityOrder nowStatus < severity upper severityOrder wasStatus then
          { diff with worsened := diff.worsened ++ [(key, wasStatus, nowStatus)] }
        else if severity upper severityOrder wasStatus < severity upper severityOrder nowStatus then
          { diff with improved := diff.improved ++ [(key, wasStatus, nowStatus)] }
        else { diff with unchangedBad := diff.unchangedBad ++ [key] }
      else diff

/-- The keys that were bad before and are not in this run. -/
def vanishedBad (before after : Dict String String) : List String :=
  sortedBy id ((before.entries.filter fun entry =>
    isBad upper healthy entry.2 && (after.get? entry.1).isNone).map Prod.fst)

def diffStates (previous : Option (Dict String String)) (current : Dict String String) : StateDiff :=
  let baseline := previous.isNone
  let before := previous.getD Dict.empty
  let start : StateDiff :=
    { newBad := [], recovered := [], worsened := [], improved := [], unchangedBad := [], vanishedBad := [],
      appearedOk := [], baseline := baseline }
  let noted := (sortedBy Prod.fst current.entries).foldl (noteKey upper severityOrder healthy baseline before.get?) start
  { noted with vanishedBad := vanishedBad upper healthy before current }

/-! ## One key -/

section Lists

variable (diff : StateDiff) (key wasStatus nowStatus : String)

theorem badKeys_newBad : { diff with newBad := diff.newBad ++ [key] }.badKeys.Perm (key :: diff.badKeys) := by
  simp only [StateDiff.badKeys, List.append_assoc, List.singleton_append]
  exact List.perm_middle

theorem badKeys_worsened :
    { diff with worsened := diff.worsened ++ [(key, wasStatus, nowStatus)] }.badKeys.Perm (key :: diff.badKeys) := by
  simp only [StateDiff.badKeys, List.map_append, List.map_cons, List.map_nil, List.append_assoc, List.singleton_append]
  rw [← List.append_assoc, ← List.append_assoc diff.newBad]
  exact List.perm_middle

theorem badKeys_improved :
    { diff with improved := diff.improved ++ [(key, wasStatus, nowStatus)] }.badKeys.Perm (key :: diff.badKeys) := by
  simp only [StateDiff.badKeys, List.map_append, List.map_cons, List.map_nil, List.append_assoc, List.singleton_append]
  rw [← List.append_assoc, ← List.append_assoc, ← List.append_assoc diff.newBad, ← List.append_assoc (_ ++ _)]
  exact List.perm_middle

theorem badKeys_unchangedBad :
    { diff with unchangedBad := diff.unchangedBad ++ [key] }.badKeys.Perm (key :: diff.badKeys) := by
  simp only [StateDiff.badKeys]
  rw [← List.append_assoc]
  exact List.perm_append_singleton key _

end Lists

/-- What one turn of the loop does to the lists: a key that is bad now is put in one list of bad keys, and only one
that was bad and is no longer among the recovered. -/
theorem noteKey_cases (baseline : Bool) (before : String → Option String) (diff : StateDiff)
    (entry : String × String) :
    let later := noteKey upper severityOrder healthy baseline before diff entry
    (isBad upper healthy entry.2 = true ∧ later.badKeys.Perm (entry.1 :: diff.badKeys) ∧
        later.recovered = diff.recovered) ∨
      (isBad upper healthy entry.2 = false ∧ later.badKeys = diff.badKeys ∧
        (later.recovered = diff.recovered ∨
          later.recovered = diff.recovered ++ [entry.1] ∧
            ∃ wasStatus, before entry.1 = some wasStatus ∧ isBad upper healthy wasStatus = true)) := by
  obtain ⟨key, nowStatus⟩ := entry
  unfold noteKey
  dsimp only
  cases bad : isBad upper healthy nowStatus with
  | true =>
    refine Or.inl ⟨rfl, ?_⟩
    cases before key with
    | none =>
      cases baseline with
      | true => exact ⟨badKeys_unchangedBad diff key, rfl⟩
      | false => exact ⟨badKeys_newBad diff key, rfl⟩
    | some wasStatus =>
      dsimp only
      cases isBad upper healthy wasStatus with
      | false => exact ⟨badKeys_newBad diff key, rfl⟩
      | true =>
        rw [if_neg (by decide), if_neg (by decide), if_pos rfl]
        split
        · exact ⟨badKeys_worsened diff key wasStatus nowStatus, rfl⟩
        · split
          · exact ⟨badKeys_improved diff key wasStatus nowStatus, rfl⟩
          · exact ⟨badKeys_unchangedBad diff key, rfl⟩
  | false =>
    refine Or.inr ⟨rfl, ?_⟩
    cases before key with
    | none => exact ⟨rfl, Or.inl rfl⟩
    | some wasStatus =>
      dsimp only
      cases was : isBad upper healthy wasStatus with
      | true => exact ⟨rfl, Or.inr ⟨rfl, wasStatus, rfl, was⟩⟩
      | false => exact ⟨rfl, Or.inl rfl⟩

/-! ## A run -/

variable (baseline : Bool) (before : String → Option String)

/-- The loop puts the keys that are bad now, and no others, in the lists of bad keys, each once. -/
theorem badKeys_foldl (entries : List (String × String)) (diff : StateDiff) :
    (entries.foldl (noteKey upper severityOrder healthy baseline before) diff).badKeys.Perm
      ((entries.filter fun entry => isBad upper healthy entry.2).map Prod.fst ++ diff.badKeys) := by
  induction entries generalizing diff with
  | nil => exact List.Perm.refl _
  | cons entry rest ih =>
    rw [List.foldl_cons]
    refine (ih _).trans ?_
    rcases noteKey_cases upper severityOrder healthy baseline before diff entry with
      ⟨bad, noted, -⟩ | ⟨good, noted, -⟩
    · rw [List.filter_cons_of_pos (by exact bad), List.map_cons, List.cons_append]
      exact (noted.append_left _).trans List.perm_middle
    · rw [List.filter_cons_of_neg (by simp [good]), noted]

theorem mem_recovered_foldl {entries : List (String × String)} {diff : StateDiff} {key : String}
    (member : key ∈ (entries.foldl (noteKey upper severityOrder healthy baseline before) diff).recovered) :
    key ∈ diff.recovered ∨
      (∃ nowStatus, (key, nowStatus) ∈ entries ∧ isBad upper healthy nowStatus = false) ∧
        ∃ wasStatus, before key = some wasStatus ∧ isBad upper healthy wasStatus = true := by
  induction entries generalizing diff with
  | nil => exact Or.inl member
  | cons entry rest ih =>
    rw [List.foldl_cons] at member
    rcases ih member with noted | ⟨⟨nowStatus, present, good⟩, was⟩
    · rcases noteKey_cases upper severityOrder healthy baseline before diff entry with
        ⟨-, -, same⟩ | ⟨good, -, same | ⟨added, was⟩⟩
      · exact Or.inl (same ▸ noted)
      · exact Or.inl (same ▸ noted)
      · rw [added, List.mem_append, List.mem_singleton] at noted
        rcases noted with held | rfl
        · exact Or.inl held
        · exact Or.inr ⟨⟨entry.2, List.mem_cons_self, good⟩, was⟩
    · exact Or.inr ⟨⟨nowStatus, List.mem_cons_of_mem entry present, good⟩, was⟩

/-! ## The whole comparison -/

variable (previous : Option (Dict String String)) (current : Dict String String)

/-- What is said of a diff: each key bad now stands once in the four lists and no other key there, a recovery was bad
before and is there and good now, and what vanished did not recover. -/
structure Partitions (diff : StateDiff) : Prop where
  once : ∀ key status, current.get? key = some status → isBad upper healthy status = true → diff.badKeys.count key = 1
  others : ∀ key ∈ diff.badKeys, ∃ status, current.get? key = some status ∧ isBad upper healthy status = true
  recovered : ∀ key ∈ diff.recovered, ∃ dict wasStatus nowStatus, previous = some dict ∧
    dict.get? key = some wasStatus ∧ isBad upper healthy wasStatus = true ∧
      current.get? key = some nowStatus ∧ isBad upper healthy nowStatus = false
  vanished : ∀ key, current.get? key = none → key ∉ diff.recovered

/-- Two maps with the same entries, in any two orders. -/
def SameStates (first second : Dict String String) : Prop := first.entries.Perm second.entries

def OrderBlind : Prop :=
  ∀ previous' current' healthy', Option.Rel SameStates previous previous' → SameStates current current' →
    (∀ status, status ∈ healthy ↔ status ∈ healthy') →
      diffStates upper severityOrder healthy' previous' current' =
        diffStates upper severityOrder healthy previous current

theorem badKeys_diffStates :
    (diffStates upper severityOrder healthy previous current).badKeys.Perm
      ((current.entries.filter fun entry => isBad upper healthy entry.2).map Prod.fst) := by
  have noted := badKeys_foldl upper severityOrder healthy previous.isNone (previous.getD Dict.empty).get?
    (sortedBy Prod.fst current.entries)
    { newBad := [], recovered := [], worsened := [], improved := [], unchangedBad := [], vanishedBad := [],
      appearedOk := [], baseline := previous.isNone }
  refine noted.trans ?_
  rw [show StateDiff.badKeys _ = [] from rfl, List.append_nil]
  exact ((sortedBy_perm Prod.fst current.entries).filter _).map Prod.fst

theorem partitions_diffStates :
    Partitions upper healthy previous current (diffStates upper severityOrder healthy previous current) := by
  have bad := badKeys_diffStates upper severityOrder healthy previous current
  have recovered : ∀ key ∈ (diffStates upper severityOrder healthy previous current).recovered,
      ∃ dict wasStatus nowStatus, previous = some dict ∧ dict.get? key = some wasStatus ∧
        isBad upper healthy wasStatus = true ∧ current.get? key = some nowStatus ∧
          isBad upper healthy nowStatus = false := by
    intro key member
    rcases mem_recovered_foldl upper severityOrder healthy _ _ member with
      start | ⟨⟨nowStatus, present, good⟩, wasStatus, found, was⟩
    · exact absurd start List.not_mem_nil
    · have now := Dict.get?_eq_some_iff.mpr ((mem_sortedBy _ _ _).mp present)
      cases previous with
      | none => cases found
      | some dict => exact ⟨dict, wasStatus, nowStatus, rfl, found, was, now, good⟩
  refine ⟨?_, ?_, recovered, ?_⟩
  · intro key status found isBadNow
    rw [bad.count_eq]
    refine List.count_eq_one_of_mem (current.nodup.sublist (List.filter_sublist.map Prod.fst)) ?_
    exact List.mem_map.mpr ⟨(key, status), List.mem_filter.mpr ⟨Dict.get?_eq_some_iff.mp found, isBadNow⟩, rfl⟩
  · intro key member
    obtain ⟨⟨_, status⟩, kept, rfl⟩ := List.mem_map.mp (bad.mem_iff.mp member)
    obtain ⟨held, isBadNow⟩ := List.mem_filter.mp kept
    exact ⟨status, Dict.get?_eq_some_iff.mpr held, isBadNow⟩
  · intro key absent member
    obtain ⟨_, _, _, -, -, -, found, -⟩ := recovered key member
    exact absurd (absent.symm.trans found) (by simp)

theorem SameStates.get? {first second : Dict String String} (same : SameStates first second) :
    first.get? = second.get? := by
  funext key
  refine Option.ext fun status => ?_
  rw [Dict.get?_eq_some_iff, Dict.get?_eq_some_iff]
  exact same.mem_iff

theorem isBad_congr {healthy healthy' : List String} (same : ∀ status, status ∈ healthy ↔ status ∈ healthy') :
    isBad upper healthy = isBad upper healthy' := by
  funext status
  unfold isBad
  simp only [List.mem_map, same]

theorem noteKey_congr {healthy healthy' : List String} (same : isBad upper healthy = isBad upper healthy') :
    noteKey upper severityOrder healthy = noteKey upper severityOrder healthy' := by
  funext baseline before diff entry
  unfold noteKey
  rw [same]

theorem vanishedBad_congr {healthy healthy' : List String} {before before' after after' : Dict String String}
    (same : isBad upper healthy = isBad upper healthy') (past : SameStates before before')
    (present : SameStates after after') :
    vanishedBad upper healthy before after = vanishedBad upper healthy' before' after' := by
  unfold vanishedBad
  rw [same, present.get?]
  refine sortedBy_eq_of_perm ((past.filter _).map Prod.fst) ?_
  rw [List.map_id]
  exact before.nodup.sublist (List.filter_sublist.map Prod.fst)

theorem orderBlind_diffStates : OrderBlind upper severityOrder healthy previous current := by
  intro previous' current' healthy' past present members
  have bad := isBad_congr upper members
  have baselines : previous'.isNone = previous.isNone := by
    cases past <;> rfl
  have befores : SameStates (previous.getD Dict.empty) (previous'.getD Dict.empty) := by
    cases past with
    | none => exact List.Perm.refl _
    | some same => exact same
  have sorted : sortedBy Prod.fst current'.entries = sortedBy Prod.fst current.entries :=
    sortedBy_eq_of_perm present.symm current'.nodup
  unfold diffStates
  dsimp only
  rw [baselines, sorted, noteKey_congr upper severityOrder bad, befores.get?,
    vanishedBad_congr upper bad befores present]

/-- Each key that is bad now stands once in the four lists of bad keys, only what was bad and is good now is a
recovery, and the order of the maps says nothing. -/
theorem diff_partitions_states :
    Partitions upper healthy previous current (diffStates upper severityOrder healthy previous current) ∧
      OrderBlind upper severityOrder healthy previous current :=
  ⟨partitions_diffStates upper severityOrder healthy previous current,
    orderBlind_diffStates upper severityOrder healthy previous current⟩

end DbaBrain.Lib.StateTransition
