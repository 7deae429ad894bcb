import DbaBrain.Lib.ConfigBundle

/-!
# The paths a bundle states

What `_safe_relative` makes of a text: its parts, without the empty ones and the
dots, joined again.  The result has exactly those parts, so that it stays below
the tool root it is joined to, except on Windows where its first part is a drive.
-/

namespace DbaBrain.Lib.ConfigBundle

open DbaBrain.Foundation

/-! ## Parts -/

theorem splitParts_append (front back : Str) :
    splitParts (front ++ .char '/' :: back) = splitParts front ++ splitParts back :=
  List.splitOn_append_cons_self front back

theorem pureParts_append (front back : Str) :
    pureParts (front ++ .char '/' :: back) = pureParts front ++ pureParts back := by
  rw [pureParts, splitParts_append, List.filter_append]
  rfl

theorem splitParts_joinParts {parts : List Str} (slashless : ∀ part ∈ parts, CodePoint.char '/' ∉ part) (some_part : parts ≠ []) :
    splitParts (joinParts parts) = parts :=
  List.splitOn_intercalate (CodePoint.char '/') slashless some_part

theorem joinParts_append {front back : List Str} (some_part : front ≠ []) (more : back ≠ []) :
    joinParts (front ++ back) = joinParts front ++ .char '/' :: joinParts back :=
  Text.intercalate_append some_part more

theorem splitParts_relativeText {path : Path} (some_part : path ≠ []) :
    splitParts (relativeText path) = path.map Subtype.val := by
  refine splitParts_joinParts (fun part member => ?_) fun nothing => some_part (List.map_eq_nil_iff.mp nothing)
  obtain ⟨name, _, rfl⟩ := List.mem_map.mp member
  exact name.property.2.2.2.1

theorem slash_notMem_of_mem_splitParts (text : Str) : ∀ part ∈ splitParts text, CodePoint.char '/' ∉ part := by
  induction text with
  | nil => simp [splitParts]
  | cons point rest ih =>
    intro part member
    rw [splitParts, List.splitOn_cons_eq_if_modifyHead] at member
    split at member
    · rcases List.mem_cons.mp member with rfl | later
      · exact List.not_mem_nil
      · exact ih part later
    · next plain =>
        cases split_rest : List.splitOn (CodePoint.char '/') rest with
        | nil => exact absurd split_rest (List.splitOn_ne_nil _ _)
        | cons first others =>
          rw [split_rest, List.modifyHead_cons] at member
          have inside : ∀ other ∈ first :: others, CodePoint.char '/' ∉ other := by
            rw [← split_rest]
            exact ih
          rcases List.mem_cons.mp member with rfl | later
          · intro slash
            rcases List.mem_cons.mp slash with same | further
            · exact plain (by simpa using same.symm)
            · exact inside first List.mem_cons_self further
          · exact inside part (List.mem_cons_of_mem first later)

variable {text path : Str}

/-- A part that is kept can be a name, as far as its text goes. -/
theorem of_mem_pureParts {part : Str} (member : part ∈ pureParts text) :
    part ≠ [] ∧ part ≠ str "." ∧ CodePoint.char '/' ∉ part := by
  obtain ⟨split, kept⟩ := List.mem_filter.mp member
  rw [Bool.and_eq_true, decide_eq_true_eq, decide_eq_true_eq] at kept
  exact ⟨kept.1, kept.2, slash_notMem_of_mem_splitParts text part split⟩

/-! ## Accepted paths -/

/-- The text `_safe_relative` takes apart. -/
def normalised (raw : Str) : Str := Str.replace '\\' '/' (Str.strip raw)

theorem replace_eq_self (unescaped : CodePoint.char '\\' ∉ text) : Str.replace '\\' '/' text = text := by
  have each : ∀ point ∈ text, (if point = .char '\\' then CodePoint.char '/' else point) = point := by
    intro point member
    rw [if_neg]
    rintro rfl
    exact unescaped member
  rw [Str.replace]
  exact (List.map_congr_left each).trans (List.map_id text)

theorem normalised_eq_self (stripped : Str.strip text = text) (unescaped : CodePoint.char '\\' ∉ text) :
    normalised text = text := by
  rw [normalised, stripped, replace_eq_self unescaped]

/-- A text that can be a name is its own one part. -/
theorem pureParts_name {name : Str} (slashless : CodePoint.char '/' ∉ name) (some_point : name ≠ [])
    (named : name ≠ str ".") : pureParts name = [name] := by
  rw [pureParts, splitParts, List.splitOn_eq_singleton slashless]
  simp [some_point, named]

variable {raw front : Str}

theorem safeRelative_eq_ok :
    safeRelative raw = .ok path ↔
      normalised raw ≠ [] ∧ (normalised raw)[1]? ≠ some (.char ':') ∧ (normalised raw).head? ≠ some (.char '/') ∧
        str ".." ∉ pureParts (normalised raw) ∧ pureParts (normalised raw) ≠ [] ∧
        path = joinParts (pureParts (normalised raw)) := by
  rw [safeRelative, ← normalised]
  constructor
  · intro accepted
    split at accepted
    · cases accepted
    · next some_text =>
        split at accepted
        · cases accepted
        · next driveless =>
            split at accepted
            · cases accepted
            · next relative =>
                split at accepted
                · cases accepted
                · next inside =>
                    split at accepted
                    · cases accepted
                    · next some_part =>
                        exact ⟨some_text, driveless, relative, inside, some_part, (Except.ok.inj accepted).symm⟩
  · rintro ⟨some_text, driveless, relative, inside, some_part, rfl⟩
    rw [if_neg some_text, if_neg driveless, if_neg relative, if_neg inside, if_neg some_part]

theorem splitParts_of_safeRelative (accepted : safeRelative raw = .ok path) :
    splitParts path = pureParts (normalised raw) := by
  obtain ⟨_, _, _, _, some_part, rfl⟩ := safeRelative_eq_ok.mp accepted
  exact splitParts_joinParts (fun part member => (of_mem_pureParts member).2.2) some_part

/-! ## Paths below a directory -/

/-- A strip leaves what stands in front of a slash. -/
theorem strip_below (dark : ∀ point ∈ front.head?, point.isSpace = false) (some_point : front ≠ []) (rest : Str) :
    ∃ kept, Str.strip (front ++ .char '/' :: rest) = front ++ .char '/' :: kept := by
  have leading : (front ++ .char '/' :: rest).dropWhile CodePoint.isSpace = front ++ .char '/' :: rest := by
    cases front with
    | nil => exact absurd rfl some_point
    | cons point others => simp [dark point rfl]
  have slash : (CodePoint.char '/').isSpace = false := by decide
  refine ⟨(rest.reverse.dropWhile CodePoint.isSpace).reverse, ?_⟩
  rw [Str.strip, leading, List.reverse_append, List.reverse_cons, List.append_assoc, List.dropWhile_append]
  split
  · next blank =>
      have nothing : rest.reverse.dropWhile CodePoint.isSpace = [] := by simpa using blank
      rw [nothing]
      simp [slash]
  · simp

/-- A path that states a directory first is accepted below it. -/
theorem below_of_safeRelative {rest : Str} (dark : ∀ point ∈ front.head?, point.isSpace = false)
    (some_point : front ≠ []) (unescaped : CodePoint.char '\\' ∉ front)
    (accepted : safeRelative (front ++ .char '/' :: rest) = .ok path) : pureParts front <+: splitParts path := by
  obtain ⟨kept, stripped⟩ := strip_below dark some_point rest
  have text : normalised (front ++ .char '/' :: rest) = front ++ .char '/' :: Str.replace '\\' '/' kept := by
    rw [normalised, stripped, Str.replace, List.map_append, List.map_cons, ← Str.replace, replace_eq_self unescaped]
    rfl
  rw [splitParts_of_safeRelative accepted, text, pureParts_append]
  exact List.prefix_append _ _

end DbaBrain.Lib.ConfigBundle
