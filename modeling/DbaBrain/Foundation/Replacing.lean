import Mathlib

/-!
# Replacing what a pattern finds

A text is read from the left; what the pattern finds at a place is replaced, and
the reading goes on behind it.  A finding is told by the number of characters it
has behind its first, so that none is empty.  What is put for it is one value, or
what the finding says.
-/

namespace DbaBrain.Foundation.Replacing

variable {α : Type*} (found : List α → Option Nat) (value : List α)

def replaceFrom : Nat → List α → List α
  | _, [] => []
  | skipped + 1, _ :: rest => replaceFrom skipped rest
  | 0, c :: rest =>
      match found (c :: rest) with
      | none => c :: replaceFrom 0 rest
      | some more => value ++ replaceFrom more rest

def replaceAll (text : List α) : List α := replaceFrom found value 0 text

example (text : List α) : replaceAll (fun _ => none) value text = text := by
  induction text with
  | nil => rw [replaceAll, replaceFrom]
  | cons c rest ih => rw [replaceAll, replaceFrom, ← replaceAll, ih]

variable {found value}

theorem replaceFrom_eq (skipped : Nat) (text : List α) :
    replaceFrom found value skipped text = replaceAll found value (text.drop skipped) := by
  induction text generalizing skipped with
  | nil =>
    rw [List.drop_nil]
    cases skipped <;> rfl
  | cons c rest ih =>
    cases skipped with
    | zero => rfl
    | succ skipped => exact ih skipped

variable {c : α} {rest : List α} {before : Option α}

theorem replaceAll_cons_of_none (absent : found (c :: rest) = none) :
    replaceAll found value (c :: rest) = c :: replaceAll found value rest := by
  rw [replaceAll, replaceFrom, absent]
  rfl

variable {front text : List α}

theorem replaceAll_append_of_found (rest : List α) (stated : front ≠ [])
    (here : found (front ++ rest) = some (front.length - 1)) :
    replaceAll found value (front ++ rest) = value ++ replaceAll found value rest := by
  cases front with
  | nil => exact absurd rfl stated
  | cons c front =>
    rw [List.cons_append] at here ⊢
    rw [replaceAll, replaceFrom, here]
    dsimp only
    rw [replaceFrom_eq, List.length_cons, Nat.add_sub_cancel, List.drop_left]

/-- A front in which nothing is found stands. -/
theorem replaceAll_append_of_none (front : List α)
    (absent : ∀ c tail, c :: tail <:+ front → found (c :: tail ++ rest) = none) :
    replaceAll found value (front ++ rest) = front ++ replaceAll found value rest := by
  induction front with
  | nil => rfl
  | cons c front ih =>
    have here : found (c :: (front ++ rest)) = none := absent c front List.suffix_rfl
    rw [List.cons_append, replaceAll_cons_of_none here,
      ih fun d tail behind => absent d tail (behind.trans (List.suffix_cons c front)), List.cons_append]

theorem length_replaceFrom_nil_le (skipped : Nat) (text : List α) :
    (replaceFrom found [] skipped text).length ≤ text.length := by
  induction text generalizing skipped with
  | nil => cases skipped <;> exact le_rfl
  | cons c rest ih =>
    cases skipped with
    | succ skipped => exact (ih skipped).trans (Nat.le_succ _)
    | zero =>
      rw [replaceFrom]
      cases found (c :: rest) with
      | none => exact Nat.succ_le_succ (ih 0)
      | some more => exact (ih more).trans (Nat.le_succ _)

/-- A text from which what is found is taken out is the same exactly when nothing is found. -/
theorem replaceAll_nil_eq_self_iff (text : List α) :
    replaceAll found [] text = text ↔ ∀ c tail, c :: tail <:+ text → found (c :: tail) = none := by
  induction text with
  | nil => exact iff_of_true rfl fun c tail suffix => absurd (List.suffix_nil.mp suffix) (List.cons_ne_nil _ _)
  | cons c rest ih =>
    cases here : found (c :: rest) with
    | none =>
      rw [replaceAll_cons_of_none here, List.cons.injEq, eq_self, true_and, ih]
      constructor
      · intro later d tail suffix
        rcases List.suffix_cons_iff.mp suffix with same | behind
        · rw [same, here]
        · exact later d tail behind
      · exact fun all d tail suffix => all d tail (suffix.trans (List.suffix_cons c rest))
    | some more =>
      refine iff_of_false (fun same => ?_) fun all => ?_
      · have shorter := @length_replaceFrom_nil_le _ found more rest
        rw [replaceAll, replaceFrom, here] at same
        have length := congrArg List.length same
        dsimp only at length
        rw [List.nil_append, List.length_cons] at length
        omega
      · rw [all c rest List.suffix_rfl] at here
        cases here

/-! ## Putting what the finding says -/

-- What is found at a place, seen from what stands before it: the characters behind its first, and what is put for it.

variable {finding : Option α → List α → Option (Nat × List α)}

variable (finding) in
def substituteFrom : Nat → Option α → List α → List α
  | _, _, [] => []
  | skipped + 1, _, c :: rest => substituteFrom skipped (some c) rest
  | 0, before, c :: rest =>
      match finding before (c :: rest) with
      | none => c :: substituteFrom 0 (some c) rest
      | some (more, put) => put ++ substituteFrom more (some c) rest

variable (finding) in
def substitute (before : Option α) (text : List α) : List α := substituteFrom finding 0 before text

def behind (before : Option α) (text : List α) : Option α := text.foldl (fun _ c => some c) before

theorem behind_of_ne_nil (stated : text ≠ []) (first second : Option α) : behind first text = behind second text := by
  cases text with
  | nil => exact absurd rfl stated
  | cons c rest => rfl

theorem substituteFrom_append (front rest : List α) (before : Option α) :
    substituteFrom finding front.length before (front ++ rest) = substitute finding (behind before front) rest := by
  induction front generalizing before with
  | nil => rfl
  | cons c front ih => exact ih (some c)

theorem substitute_cons_of_none (absent : finding before (c :: rest) = none) :
    substitute finding before (c :: rest) = c :: substitute finding (some c) rest := by
  rw [substitute, substituteFrom, absent]
  rfl

/-- A front that is found gives way to what the finding says. -/
theorem substitute_append_of_found {put : List α} (rest : List α) (stated : front ≠ [])
    (here : finding before (front ++ rest) = some (front.length - 1, put)) :
    substitute finding before (front ++ rest) = put ++ substitute finding (behind before front) rest := by
  cases front with
  | nil => exact absurd rfl stated
  | cons c front =>
    rw [List.cons_append] at here ⊢
    rw [substitute, substituteFrom, here]
    dsimp only
    rw [List.length_cons, Nat.add_sub_cancel, substituteFrom_append]
    rfl

/-- A front in which nothing is found stands. -/
theorem substitute_append_of_none (front : List α)
    (absent : ∀ first c tail, front = first ++ c :: tail → finding (behind before first) (c :: tail ++ rest) = none) :
    substitute finding before (front ++ rest) = front ++ substitute finding (behind before front) rest := by
  induction front generalizing before with
  | nil => rfl
  | cons c front ih =>
    have here : finding before (c :: (front ++ rest)) = none := absent [] c front rfl
    have later := @ih (some c) fun first d tail split => absent (c :: first) d tail (by rw [split]; rfl)
    rw [List.cons_append, substitute_cons_of_none here, later]
    rfl

/-- What stands before changes nothing where the findings do not look at it. -/
theorem substitute_before_eq (blind : ∀ first second text, finding first text = finding second text)
    (first second : Option α) (text : List α) : substitute finding first text = substitute finding second text := by
  cases text with
  | nil => rfl
  | cons c rest =>
    rw [substitute, substitute, substituteFrom, substituteFrom, blind first second]

/-- A character of the result stood in the text or was put for something found. -/
theorem mem_substitute (member : c ∈ substitute finding before text) :
    c ∈ text ∨ ∃ before tail more put, finding before tail = some (more, put) ∧ c ∈ put := by
  have general (skipped : Nat) (before : Option α) (text : List α)
      (member : c ∈ substituteFrom finding skipped before text) :
      c ∈ text ∨ ∃ before tail more put, finding before tail = some (more, put) ∧ c ∈ put := by
    induction text generalizing skipped before with
    | nil =>
      cases skipped <;> exact absurd member List.not_mem_nil
    | cons d text ih =>
      have later {skipped : Nat} (inside : c ∈ substituteFrom finding skipped (some d) text) :
          c ∈ d :: text ∨ ∃ before tail more put, finding before tail = some (more, put) ∧ c ∈ put :=
        (ih _ _ inside).imp_left (List.mem_cons_of_mem d)
      cases skipped with
      | succ skipped => exact later member
      | zero =>
        rw [substituteFrom] at member
        cases here : finding before (d :: text) with
        | none =>
          rw [here] at member
          rcases List.mem_cons.mp member with rfl | inside
          · exact Or.inl List.mem_cons_self
          · exact later inside
        | some found =>
          obtain ⟨more, put⟩ := found
          rw [here] at member
          rcases List.mem_append.mp member with placed | inside
          · exact Or.inr ⟨before, d :: text, more, put, here, placed⟩
          · exact later inside
  exact general 0 before text member

/-- What a test picks out of a text is kept where neither what is found nor what is put has any of it. -/
theorem filter_substitute (test : α → Bool)
    (apart : ∀ before text more put, finding before text = some (more, put) →
      (∀ c ∈ text.take (more + 1), test c = false) ∧ ∀ c ∈ put, test c = false)
    (before : Option α) (text : List α) : (substitute finding before text).filter test = text.filter test := by
  have general (skipped : Nat) (before : Option α) (text : List α) :
      (substituteFrom finding skipped before text).filter test = (text.drop skipped).filter test := by
    induction text generalizing skipped before with
    | nil =>
      rw [List.drop_nil]
      cases skipped <;> rfl
    | cons d text ih =>
      cases skipped with
      | succ skipped => exact ih skipped (some d)
      | zero =>
        rw [substituteFrom, List.drop_zero]
        cases here : finding before (d :: text) with
        | none =>
          dsimp only
          rw [List.filter_cons, List.filter_cons, ih, List.drop_zero]
        | some found =>
          obtain ⟨more, put⟩ := found
          obtain ⟨taken, placed⟩ := apart before _ more put here
          have none_put : put.filter test = [] :=
            List.filter_eq_nil_iff.mpr fun c member => Bool.not_eq_true _ ▸ placed c member
          have none_taken : ((d :: text).take (more + 1)).filter test = [] :=
            List.filter_eq_nil_iff.mpr fun c member => Bool.not_eq_true _ ▸ taken c member
          dsimp only
          conv_rhs => rw [← List.take_append_drop (more + 1) (d :: text), List.filter_append, none_taken]
          rw [List.filter_append, none_put, ih]
          rfl
  exact general 0 before text

end DbaBrain.Foundation.Replacing
