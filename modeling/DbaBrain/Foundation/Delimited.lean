import Mathlib

/-!
# Delimited texts

A text is cut at its separators, but for those that stand behind a mark; the
mark covers the character after it, whatever that is.  A piece with no open
mark and no bare separator is cut from a text as it was joined into it.
-/

namespace DbaBrain.Foundation.Delimited

variable {κ : Type} [DecidableEq κ] {mark separator : κ}

/-- The front joined to the first piece. -/
def prepend (front : List κ) : List (List κ) → List (List κ)
  | [] => [front]
  | piece :: pieces => (front ++ piece) :: pieces

def cut (mark separator : κ) : List κ → List (List κ)
  | [] => [[]]
  | c :: rest =>
      if c = mark then
        match rest with
        | [] => [[mark]]
        | covered :: text => prepend [mark, covered] (cut mark separator text)
      else if c = separator then [] :: cut mark separator rest
      else prepend [c] (cut mark separator rest)

example : cut '\\' ',' ['a', ',', '\\', ','] = [['a'], ['\\', ',']] := by simp [cut, prepend]

/-- A piece that every mark in it covers a character of, and no bare separator. -/
inductive Whole (mark separator : κ) : List κ → Prop
  | nil : Whole mark separator []
  | plain {c : κ} {rest : List κ} (unmarked : c ≠ mark) (inside : c ≠ separator) (whole : Whole mark separator rest) :
      Whole mark separator (c :: rest)
  | covered {c : κ} {rest : List κ} (whole : Whole mark separator rest) : Whole mark separator (mark :: c :: rest)

namespace Whole

omit [DecidableEq κ] in
theorem append {first second : List κ} (front : Whole mark separator first) (back : Whole mark separator second) :
    Whole mark separator (first ++ second) := by
  induction front with
  | nil => exact back
  | plain unmarked inside _ ih => exact .plain unmarked inside ih
  | covered _ ih => exact .covered ih

omit [DecidableEq κ] in
/-- A piece without the two characters. -/
theorem of_forall (bare : ∀ c ∈ piece, c ≠ mark ∧ c ≠ separator) : Whole mark separator piece := by
  induction piece with
  | nil => exact .nil
  | cons c rest ih =>
    obtain ⟨unmarked, inside⟩ := bare c List.mem_cons_self
    exact .plain unmarked inside (ih fun other member => bare other (List.mem_cons_of_mem _ member))

omit [DecidableEq κ] in
theorem flatMap {α : Type} {encode : α → List κ} {values : List α}
    (each : ∀ value ∈ values, Whole mark separator (encode value)) : Whole mark separator (values.flatMap encode) := by
  induction values with
  | nil => exact .nil
  | cons value rest ih =>
    rw [List.flatMap_cons]
    exact (each value List.mem_cons_self).append (ih fun other member => each other (List.mem_cons_of_mem _ member))

omit [DecidableEq κ] in
/-- Pieces joined by another character. -/
theorem intercalate {joint : κ} {pieces : List (List κ)} (unmarked : joint ≠ mark) (inside : joint ≠ separator)
    (each : ∀ piece ∈ pieces, Whole mark separator piece) : Whole mark separator ([joint].intercalate pieces) := by
  induction pieces with
  | nil => exact .nil
  | cons piece rest ih =>
    cases rest with
    | nil =>
      rw [List.intercalate_singleton]
      exact each piece List.mem_cons_self
    | cons next others =>
      rw [List.intercalate_cons_cons]
      refine ((each piece List.mem_cons_self).append (.plain unmarked inside .nil)).append ?_
      exact ih fun other member => each other (List.mem_cons_of_mem _ member)

end Whole

omit [DecidableEq κ] in
theorem prepend_prepend (first second : List κ) (pieces : List (List κ)) :
    prepend first (prepend second pieces) = prepend (first ++ second) pieces := by
  cases pieces with
  | nil => rfl
  | cons piece rest => exact congrArg (· :: rest) (List.append_assoc first second piece).symm

theorem cut_ne_nil (mark separator : κ) (text : List κ) : cut mark separator text ≠ [] := by
  have kept (front : List κ) (pieces : List (List κ)) : prepend front pieces ≠ [] := by
    cases pieces <;> exact List.cons_ne_nil _ _
  cases text with
  | nil => exact List.cons_ne_nil _ _
  | cons c rest =>
    unfold cut
    split
    · split
      · exact List.cons_ne_nil _ _
      · exact kept _ _
    · split
      · exact List.cons_ne_nil _ _
      · exact kept _ _

@[simp]
theorem cut_plain {c : κ} (unmarked : c ≠ mark) (inside : c ≠ separator) (text : List κ) :
    cut mark separator (c :: text) = prepend [c] (cut mark separator text) := by
  rw [cut.eq_def]
  dsimp only
  rw [if_neg unmarked, if_neg inside]

@[simp]
theorem cut_covered (c : κ) (text : List κ) :
    cut mark separator (mark :: c :: text) = prepend [mark, c] (cut mark separator text) := by
  rw [cut.eq_def]
  dsimp only
  rw [if_pos rfl]

@[simp]
theorem cut_cons_separator (apart : separator ≠ mark) (text : List κ) :
    cut mark separator (separator :: text) = [] :: cut mark separator text := by
  rw [cut.eq_def]
  dsimp only
  rw [if_neg apart, if_pos rfl]

variable {piece : List κ}

/-- A whole piece stays in front of what is cut behind it. -/
theorem cut_append (whole : Whole mark separator piece) (text : List κ) :
    cut mark separator (piece ++ text) = prepend piece (cut mark separator text) := by
  induction whole with
  | nil =>
    obtain ⟨first, rest, found⟩ := List.exists_cons_of_ne_nil (cut_ne_nil mark separator text)
    rw [List.nil_append, found]
    rfl
  | @plain c rest unmarked inside _ ih =>
    rw [List.cons_append, cut_plain unmarked inside, ih, prepend_prepend]
    rfl
  | @covered c rest _ ih =>
    rw [List.cons_append, List.cons_append, cut_covered, ih, prepend_prepend]
    rfl

theorem cut_whole (whole : Whole mark separator piece) : cut mark separator piece = [piece] := by
  have ends := cut_append whole []
  rw [List.append_nil] at ends
  rw [ends, cut, prepend, List.append_nil]

theorem cut_separator (apart : separator ≠ mark) (whole : Whole mark separator piece) (text : List κ) :
    cut mark separator (piece ++ separator :: text) = piece :: cut mark separator text := by
  rw [cut_append whole, cut_cons_separator apart, prepend, List.append_nil]

variable {pieces : List (List κ)}

theorem cut_intercalate (apart : separator ≠ mark) (some_piece : pieces ≠ [])
    (each : ∀ piece ∈ pieces, Whole mark separator piece) :
    cut mark separator ([separator].intercalate pieces) = pieces := by
  induction pieces with
  | nil => exact absurd rfl some_piece
  | cons piece rest ih =>
    have whole := each piece List.mem_cons_self
    cases rest with
    | nil =>
      rw [List.intercalate_singleton]
      exact cut_whole whole
    | cons next others =>
      rw [List.intercalate_cons_cons, List.append_assoc, List.singleton_append, cut_separator apart whole,
        ih (List.cons_ne_nil _ _) fun other member => each other (List.mem_cons_of_mem _ member)]

/-- Pieces each ended by the separator leave an empty last one. -/
theorem cut_terminated (apart : separator ≠ mark) (each : ∀ piece ∈ pieces, Whole mark separator piece) :
    cut mark separator (pieces.flatMap fun piece => piece ++ [separator]) = pieces ++ [[]] := by
  induction pieces with
  | nil => rfl
  | cons piece rest ih =>
    rw [List.flatMap_cons, List.append_assoc, List.singleton_append,
      cut_separator apart (each piece List.mem_cons_self),
      ih fun other member => each other (List.mem_cons_of_mem _ member), List.cons_append]

end DbaBrain.Foundation.Delimited
