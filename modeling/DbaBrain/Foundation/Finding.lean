import Mathlib.Data.List.Basic
import Mathlib.Data.List.Infix

/-!
# Finding a text in another

The first place from which on a text stands, and the last one before another
place.  A text no end of which it begins with stands at no two places that overlap.
-/

namespace DbaBrain.Foundation.Finding

variable {α : Type*}

def StandsAt (needle text : List α) (place : Nat) : Prop := needle <+: text.drop place

instance [DecidableEq α] (needle text : List α) (place : Nat) : Decidable (StandsAt needle text place) :=
  inferInstanceAs (Decidable (needle <+: text.drop place))

/-- No end of the text is a beginning of it. -/
def Unbordered (needle : List α) : Prop :=
  ∀ shift < needle.length, 0 < shift → ¬ needle.drop shift <+: needle

instance [DecidableEq α] (needle : List α) : Decidable (Unbordered needle) :=
  inferInstanceAs (Decidable (∀ shift < needle.length, 0 < shift → ¬ needle.drop shift <+: needle))

/-- The first place from `start` on. -/
def find [DecidableEq α] (needle text : List α) (start : Nat) : Option Nat :=
  (List.range' start (text.length + 1 - start)).find? fun place => StandsAt needle text place

/-- The last place below a bound. -/
def findBelow [DecidableEq α] (needle text : List α) : Nat → Option Nat
  | 0 => none
  | bound + 1 => if StandsAt needle text bound then some bound else findBelow needle text bound

/-- The last place that ends by `stop`. -/
def rfind [DecidableEq α] (needle text : List α) (stop : Nat) : Option Nat :=
  findBelow needle text (stop + 1 - needle.length)

section Places

variable {needle text : List α} {place other start stop : Nat}

theorem StandsAt.end_le (stands : StandsAt needle text place) (filled : needle ≠ []) :
    place + needle.length ≤ text.length := by
  have shorter := List.IsPrefix.length_le stands
  have some_needle := List.length_pos_of_ne_nil filled
  rw [List.length_drop] at shorter
  omega

theorem StandsAt.getElem? (stands : StandsAt needle text place) {shift : Nat} (inside : shift < needle.length) :
    text[place + shift]? = needle[shift]? := by
  rw [← List.getElem?_drop, List.getElem?_eq_getElem inside]
  exact List.prefix_iff_getElem?.mp stands shift inside

/-- Two places of a text without borders are apart by its length. -/
theorem Unbordered.apart (unbordered : Unbordered needle) (first : StandsAt needle text place)
    (second : StandsAt needle text other) (before : place < other) : place + needle.length ≤ other := by
  by_contra near
  refine unbordered (other - place) (by omega) (by omega) ?_
  obtain ⟨rest, whole⟩ := first
  unfold StandsAt at second
  have drop : text.drop other = needle.drop (other - place) ++ rest := by
    have shifted := congrArg (List.drop (other - place)) whole
    rw [List.drop_append_of_le_length (by omega), List.drop_drop] at shifted
    rw [shifted]
    congr 1
    omega
  rw [drop] at second
  exact List.prefix_of_prefix_length_le (List.prefix_append _ _) second (by rw [List.length_drop]; omega)

section Decidable

variable [DecidableEq α]

theorem find_eq_some_iff (filled : needle ≠ []) : find needle text start = some place ↔
    StandsAt needle text place ∧ start ≤ place ∧ ∀ other, start ≤ other → other < place → ¬ StandsAt needle text other := by
  rw [find, List.find?_range'_eq_some, decide_eq_true_eq]
  refine and_congr_right fun stands => ?_
  have inside := stands.end_le filled
  simp only [List.mem_range'_1, Bool.not_eq_true', decide_eq_false_iff_not]
  exact and_congr_left fun _ => by omega

theorem find_eq_none_iff (filled : needle ≠ []) :
    find needle text start = none ↔ ∀ other, start ≤ other → ¬ StandsAt needle text other := by
  rw [find, List.find?_range'_eq_none]
  simp only [Bool.not_eq_true', decide_eq_false_iff_not]
  refine forall_congr' fun other => forall_congr' fun _ => ⟨fun absent stands => ?_, fun absent _ => absent⟩
  have inside := stands.end_le filled
  exact absent (by omega) stands

theorem findBelow_eq_some_iff {bound : Nat} : findBelow needle text bound = some place ↔
    place < bound ∧ StandsAt needle text place ∧ ∀ other, place < other → other < bound → ¬ StandsAt needle text other := by
  induction bound with
  | zero => simp [findBelow]
  | succ bound ih =>
    rw [findBelow]
    split
    · next stands =>
        rw [Option.some.injEq]
        constructor
        · rintro rfl
          exact ⟨Nat.lt_succ_self _, stands, fun other after before => absurd after (by omega)⟩
        · rintro ⟨below, -, last⟩
          by_contra apart
          exact last bound (by omega) (Nat.lt_succ_self _) stands
    · next absent =>
        rw [ih]
        constructor
        · rintro ⟨below, stands, last⟩
          refine ⟨by omega, stands, fun other after before => ?_⟩
          rcases Nat.lt_succ_iff_lt_or_eq.mp before with inside | rfl
          · exact last other after inside
          · exact absent
        · rintro ⟨below, stands, last⟩
          refine ⟨?_, stands, fun other after before => last other after (by omega)⟩
          rcases Nat.lt_succ_iff_lt_or_eq.mp below with inside | rfl
          · exact inside
          · exact absurd stands absent

theorem rfind_eq_some_iff (filled : needle ≠ []) : rfind needle text stop = some place ↔
    place + needle.length ≤ stop ∧ StandsAt needle text place ∧
      ∀ other, place < other → other + needle.length ≤ stop → ¬ StandsAt needle text other := by
  have some_needle := List.length_pos_of_ne_nil filled
  rw [rfind, findBelow_eq_some_iff]
  refine and_congr (by omega) (and_congr_right fun _ => forall_congr' fun other => forall_congr' fun _ => ?_)
  exact ⟨fun last inside => last (by omega), fun last inside => last (by omega)⟩

end Decidable

end Places

end DbaBrain.Foundation.Finding
