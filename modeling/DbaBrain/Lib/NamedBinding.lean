import DbaBrain.Lib.PostgresLexers

/-!
# What stands for a name

Oracle gets a number for each name of a statement, PostgreSQL one for each name
that differs, in the order the names first appear.  Every other part stands as it
was written, but for the percent signs the `format` style wants doubled.
-/

namespace DbaBrain.Lib.PostgresLexers

open DbaBrain.Foundation DbaBrain.Foundation.Scan

variable {V : Type}

/-! ## Names and their numbers -/

/-- The names that stand for a value, in order. -/
def said (chunks : List (Part × List Char)) : List String := chunks.filterMap fun chunk => chunk.1.name

/-- The names in the order their values are bound. -/
def bindOrder (engine : String) (names : List String) : List String :=
  if engine = "postgresql" then names.eraseDups else names

/-- The placeholder of a name, among all names and behind others. -/
def placeholder (engine : String) (all before : List String) (name : String) : List Char :=
  if engine = "postgresql" then '$' :: (toString (all.eraseDups.idxOf name + 1)).toList
  else ':' :: (toString (before.length + 1)).toList

structure Spelled (values : List (String × V)) (part : Part) (name : String) : Prop where
  code : part.kind = .code
  text : ∃ letters, part.text = ':' :: letters ∧ name = String.ofList (letters.map Char.toLower)
  valued : (values.lookup name).isSome = true

/-- The parts with what is written for each: a name's placeholder, and the others' text. -/
structure Numbered (engine style : String) (values : List (String × V)) (chunks : List (Part × List Char))
    (bound : List V) : Prop where
  spelled : ∀ chunk ∈ chunks, ∀ name ∈ chunk.1.name, Spelled values chunk.1 name
  kept : ∀ chunk ∈ chunks, chunk.1.name = none → chunk.2 =
    if style = "format" ∧ chunk.1.kind ≠ .quoted ∧ said chunks ≠ [] then doubled chunk.1.text else chunk.1.text
  placed : ∀ front part written back, chunks = front ++ (part, written) :: back → ∀ name ∈ part.name,
    written = placeholder engine (said chunks) (said front) name
  bound : bound.map some = (bindOrder engine (said chunks)).map fun name => values.lookup name

theorem said_append (front back : List (Part × List Char)) : said (front ++ back) = said front ++ said back :=
  List.filterMap_append

theorem said_concat (chunks : List (Part × List Char)) (part : Part) (written : List Char) :
    said (chunks ++ [(part, written)]) = said chunks ++ part.name.toList := by
  rw [said_append]
  cases named : part.name <;> simp [said, named]

/-- A name's place among those that differ stays when others come behind. -/
theorem idxOf_eraseDups_append {names : List String} {name : String} (member : name ∈ names) (more : List String) :
    (names ++ more).eraseDups.idxOf name = names.eraseDups.idxOf name := by
  rw [List.eraseDups_append, List.idxOf_append_of_mem (List.mem_eraseDups.mpr member)]

theorem eraseDups_concat (names : List String) (name : String) :
    (names ++ [name]).eraseDups = if name ∈ names then names.eraseDups else names.eraseDups ++ [name] := by
  rw [List.eraseDups_append]
  split
  · next member => simp [List.removeAll, member]
  · next fresh =>
      have kept : [name].removeAll names = [name] := by simp [List.removeAll, fresh]
      rw [kept]
      rfl

theorem placeholder_append {engine : String} {all before : List String} {name : String} (member : name ∈ all)
    (more : List String) : placeholder engine (all ++ more) before name = placeholder engine all before name := by
  unfold placeholder
  rw [idxOf_eraseDups_append member]

/-! ## Writing one part after another -/

section Writing

variable {engine style : String} {values : List (String × V)} {chunks : List (Part × List Char)} {state : Binding V}

/-- What the loop has written and bound for the parts so far. -/
structure Written (engine style : String) (values : List (String × V)) (chunks : List (Part × List Char))
    (state : Binding V) : Prop where
  text : state.text = chunks.flatMap Prod.snd
  numbered : engine = "postgresql" → state.numbered = (said chunks).eraseDups
  bound : state.bound.map some = (bindOrder engine (said chunks)).map fun name => values.lookup name
  kept : ∀ chunk ∈ chunks, chunk.1.name = none →
    chunk.2 = if style = "format" ∧ chunk.1.kind ≠ .quoted then doubled chunk.1.text else chunk.1.text
  placed : ∀ front part written back, chunks = front ++ (part, written) :: back → ∀ name ∈ part.name,
    written = placeholder engine (said chunks) (said front) name

/-- What held of each part holds of it when one more is written. -/
theorem Written.placed_concat (so_far : Written engine style values chunks state) {part : Part} {written : List Char}
    (last : ∀ name ∈ part.name, written = placeholder engine (said chunks ++ [name]) (said chunks) name) :
    ∀ front other text back, chunks ++ [(part, written)] = front ++ (other, text) :: back → ∀ name ∈ other.name,
      text = placeholder engine (said (chunks ++ [(part, written)])) (said front) name := by
  intro front other text back split name named
  rcases List.eq_nil_or_concat' back with rfl | ⟨init, final, rfl⟩
  · obtain ⟨rfl, same⟩ := List.append_inj' split rfl
    obtain ⟨rfl, rfl⟩ := Prod.mk.inj (List.singleton_inj.mp same)
    rw [last name named, said_concat, Option.mem_def.mp named]
    rfl
  · rw [← List.cons_append, ← List.append_assoc] at split
    obtain ⟨rfl, _⟩ := List.append_inj' split rfl
    have member : name ∈ said (front ++ (other, text) :: init) :=
      List.mem_filterMap.mpr ⟨(other, text), by simp, named⟩
    rw [said_append _ [(part, written)], placeholder_append member]
    exact so_far.placed front other text init rfl name named

theorem Written.write_none (so_far : Written engine style values chunks state) {part : Part} (nameless : part.name = none) :
    Written engine style values
      (chunks ++ [(part, if style = "format" ∧ part.kind ≠ .quoted then doubled part.text else part.text)])
      (state.write engine style values part) := by
  have step : state.write engine style values part = { state with
      text := state.text ++ if style = "format" ∧ part.kind ≠ .quoted then doubled part.text else part.text } := by
    unfold Binding.write
    rw [nameless]
    rfl
  have same (written : List Char) : said (chunks ++ [(part, written)]) = said chunks := by
    rw [said_concat, nameless, Option.toList_none, List.append_nil]
  rw [step]
  refine ⟨?_, fun postgresql => ?_, ?_, ?_, ?_⟩
  · rw [List.flatMap_append, so_far.text, List.flatMap_singleton]
  · rw [same, so_far.numbered postgresql]
  · rw [same, so_far.bound]
  · refine List.forall_mem_append.mpr ⟨so_far.kept, List.forall_mem_singleton.mpr fun _ => rfl⟩
  · refine so_far.placed_concat fun name named => ?_
    rw [nameless] at named
    cases named

theorem Written.write_some (so_far : Written engine style values chunks state) {part : Part} {name : String} {value : V}
    (named : part.name = some name) (valued : values.lookup name = some value) :
    Written engine style values
      (chunks ++ [(part, placeholder engine (said chunks ++ [name]) (said chunks) name)])
      (state.write engine style values part) := by
  have found : (part.name.bind fun name => (values.lookup name).map fun value => (name, value)) = some (name, value) := by
    rw [named, Option.bind_some, valued]
    rfl
  have longer (written : List Char) : said (chunks ++ [(part, written)]) = said chunks ++ [name] := by
    rw [said_concat, named]
    rfl
  have text (written : List Char) :
      (chunks ++ [(part, written)]).flatMap Prod.snd = state.text ++ written := by
    rw [List.flatMap_append, so_far.text, List.flatMap_singleton]
  have kept (written : List Char) : ∀ chunk ∈ chunks ++ [(part, written)], chunk.1.name = none →
      chunk.2 = if style = "format" ∧ chunk.1.kind ≠ .quoted then doubled chunk.1.text else chunk.1.text := by
    refine List.forall_mem_append.mpr ⟨so_far.kept, List.forall_mem_singleton.mpr fun nameless => ?_⟩
    rw [named] at nameless
    cases nameless
  have placed := @Written.placed_concat _ _ _ _ _ _ so_far part
    (placeholder engine (said chunks ++ [name]) (said chunks) name) fun other same => by
      rw [named, Option.mem_some_iff] at same
      rw [← same]
  unfold Binding.write
  rw [found]
  dsimp only
  by_cases postgresql : engine = "postgresql"
  · have numbers := so_far.numbered postgresql
    have bound := so_far.bound
    rw [if_pos postgresql]
    unfold bindOrder at bound
    rw [if_pos postgresql] at bound
    have order : (if name ∉ state.numbered then state.numbered ++ [name] else state.numbered) =
        (said chunks ++ [name]).eraseDups := by
      rw [eraseDups_concat, numbers]
      by_cases old : name ∈ said chunks <;> simp [old]
    refine ⟨?_, fun _ => ?_, ?_, kept _, placed⟩
    · rw [text, placeholder, if_pos postgresql]
      simp only [order]
    · rw [longer]
      exact order
    · rw [longer, bindOrder, if_pos postgresql, eraseDups_concat, numbers]
      by_cases old : name ∈ said chunks
      · simp [old, bound]
      · simp [old, bound, valued]
  · have bound := so_far.bound
    rw [if_neg postgresql]
    unfold bindOrder at bound
    rw [if_neg postgresql] at bound
    have counted : state.bound.length = (said chunks).length := by simpa using congrArg List.length bound
    refine ⟨?_, fun same => absurd same postgresql, ?_, kept _, placed⟩
    · rw [text, placeholder, if_neg postgresql, counted]
    · rw [longer, bindOrder, if_neg postgresql, List.map_append, List.map_append, bound, List.map_singleton,
        List.map_singleton, valued]

/-- The loop over the parts. -/
theorem written_parts (engine style : String) {parts : List Part}
    (valued : ∀ part ∈ parts, ∀ name ∈ part.name, (values.lookup name).isSome = true) :
    ∃ chunks, chunks.map Prod.fst = parts ∧
      Written engine style values chunks (parts.foldl (Binding.write engine style values) ⟨[], [], []⟩) := by
  induction parts using List.reverseRecOn with
  | nil =>
    refine ⟨[], rfl, rfl, fun _ => rfl, ?_, fun chunk none => absurd none List.not_mem_nil, fun front part text back none => ?_⟩
    · simp [bindOrder, said]
    · simp at none
  | append_singleton parts part ih =>
    obtain ⟨before, last⟩ := List.forall_mem_append.mp valued
    obtain ⟨chunks, spelled, so_far⟩ := ih before
    rw [List.foldl_concat]
    cases named : part.name with
    | none =>
      refine ⟨_, ?_, so_far.write_none named⟩
      rw [List.map_append, spelled]
      rfl
    | some name =>
      obtain ⟨value, held⟩ := Option.isSome_iff_exists.mp (last part (List.mem_singleton_self _) name named)
      refine ⟨_, ?_, so_far.write_some named held⟩
      rw [List.map_append, spelled]
      rfl

end Writing

/-! ## The statement and what is bound for it -/

theorem spelled_of_parts (isAlnum : Char → Bool) (engine : String) (values : List (String × V)) (text : List Char) :
    ∀ part ∈ parts isAlnum engine (fun name => (values.lookup name).isSome) text, ∀ name ∈ part.name,
      Spelled values part name := by
  intro part listed name named
  have code := kind_of_named listed (Option.isSome_iff_exists.mpr ⟨name, named⟩)
  obtain ⟨piece, _, inside⟩ := List.mem_flatMap.mp listed
  unfold partsOf at inside
  split at inside
  · obtain ⟨token, met, rfl⟩ := List.mem_map.mp inside
    obtain ⟨read, wanted⟩ := Option.mem_filter_iff.mp named
    have spells : ∀ token ∈ (names isAlnum).tokens piece.2, ∀ name ∈ token.1,
        ∃ letters, token.2 = ':' :: letters ∧ name = String.ofList (letters.map Char.toLower) := by
      refine (names isAlnum).forall_mem_tokens (fun before rest _ name found => ?_) piece.2
      unfold names readName at found ⊢
      dsimp only at found ⊢
      split at found
      · split at found
        · rename_i starts
          rw [if_pos starts]
          exact ⟨_, rfl, (Option.some.inj found).symm⟩
        · cases found
      · cases found
    exact ⟨code, spells token met name read, wanted⟩
  · obtain rfl := List.mem_singleton.mp inside
    cases named

/-- The pieces spell the statement; and what is bound for it are its parts, each name that has a value as the number
of its place and all others as they are. -/
theorem bound_names_restored {isAlnum : Char → Bool} {engine style : String} {values : List (String × V)}
    {text written : List Char} {bound : List V}
    (outcome : bindNamedValues isAlnum engine style values text = .ok (written, bound)) :
    (codePieces isAlnum engine text).flatMap Prod.snd = text ∧
      ∃ chunks : List (Part × List Char),
        chunks.map Prod.fst = parts isAlnum engine (fun name => (values.lookup name).isSome) text ∧
        chunks.flatMap (fun chunk => chunk.1.text) = text ∧ chunks.flatMap Prod.snd = written ∧
        Numbered engine style values chunks bound := by
  refine ⟨flatMap_codePieces isAlnum engine text, ?_⟩
  have spelled := spelled_of_parts isAlnum engine values text
  have whole := flatMap_parts isAlnum engine (fun name => (values.lookup name).isSome) text
  unfold bindNamedValues at outcome
  dsimp only at outcome
  generalize parts isAlnum engine (fun name => (values.lookup name).isSome) text = found at *
  split at outcome
  · next nothing =>
      cases outcome
      have silent : ∀ part ∈ found, part.name = none := by simpa using nothing
      have unsaid : said (found.map fun part => (part, part.text)) = [] := by
        rw [said, List.filterMap_map, List.filterMap_eq_nil_iff]
        exact silent
      refine ⟨found.map fun part => (part, part.text), ?_, ?_, ?_, ?_, ?_, ?_, ?_⟩
      · rw [List.map_map]
        exact List.map_id _
      · rw [List.flatMap_map]
        exact whole
      · rw [List.flatMap_map]
        exact whole
      · intro chunk met
        obtain ⟨part, listed, rfl⟩ := List.mem_map.mp met
        exact spelled part listed
      · intro chunk met _
        obtain ⟨part, _, rfl⟩ := List.mem_map.mp met
        rw [if_neg fun doubles => doubles.2.2 unsaid]
      · intro front part text back split name named
        have met : (part, text) ∈ found.map fun part => (part, part.text) := by simp [split]
        obtain ⟨other, listed, same⟩ := List.mem_map.mp met
        obtain ⟨rfl, rfl⟩ := Prod.mk.inj same
        rw [silent other listed] at named
        cases named
      · rw [unsaid, bindOrder, List.eraseDups_nil, ite_self]
        rfl
  · next something =>
      split at outcome
      · cases outcome
      · split at outcome
        · cases outcome
        · cases outcome
          obtain ⟨chunks, same, done⟩ := written_parts engine style fun part listed name named =>
            (spelled part listed name named).valued
          have some_name : said chunks ≠ [] := by
            intro unsaid
            apply something
            rw [said, List.filterMap_eq_nil_iff] at unsaid
            rw [← same]
            simpa using unsaid
          refine ⟨chunks, same, ?_, done.text.symm, ?_, ?_, done.placed, done.bound⟩
          · rw [← same, List.flatMap_map] at whole
            exact whole
          · intro chunk met
            exact spelled chunk.1 (same ▸ List.mem_map_of_mem met)
          · intro chunk met nameless
            rw [done.kept chunk met nameless]
            simp only [some_name, ne_eq, not_false_eq_true, and_true]

theorem bound_names_restored_cast :
    ∃ chunks : List (Part × List Char), chunks.flatMap (fun chunk => chunk.1.text) = "SELECT :b::int % :A, ':a', :a".toList ∧
      chunks.flatMap Prod.snd = "SELECT $1::int %% $2, ':a', $2".toList ∧
        Numbered "postgresql" "format" [("a", 7), ("b", 8)] chunks [8, 7] := by
  have outcome : bindNamedValues Char.isAlphanum "postgresql" "format" [("a", 7), ("b", 8)]
      "SELECT :b::int % :A, ':a', :a".toList = .ok ("SELECT $1::int %% $2, ':a', $2".toList, [8, 7]) := by decide +kernel
  obtain ⟨chunks, -, spelled, written, numbered⟩ := (bound_names_restored outcome).2
  exact ⟨chunks, spelled, written, numbered⟩

/-- PostgreSQL binds a repeated name once, and a percent sign is doubled. -/
theorem repeated_name_bound_once :
    bindNamedValues Char.isAlphanum "postgresql" "format" [("a", 7)] "SELECT :a, :a %".toList =
        .ok ("SELECT $1, $1 %%".toList, [7]) ∧
      ¬ ∀ (isAlnum : Char → Bool) (engine style : String) (values : List (String × Nat)) (text written : List Char)
        (bound : List Nat), bindNamedValues isAlnum engine style values text = .ok (written, bound) →
          ∃ chunks : List (Part × List Char),
            chunks.map Prod.fst = parts isAlnum engine (fun name => (values.lookup name).isSome) text ∧
            chunks.flatMap Prod.snd = written ∧ (∀ chunk ∈ chunks, chunk.1.name = none → chunk.2 = chunk.1.text) ∧
            bound.length = (said chunks).length := by
  have outcome : bindNamedValues Char.isAlphanum "postgresql" "format" [("a", 7)] "SELECT :a, :a %".toList =
      .ok ("SELECT $1, $1 %%".toList, [7]) := by decide +kernel
  refine ⟨outcome, fun claimed => ?_⟩
  obtain ⟨chunks, same, -, -, counted⟩ := claimed _ _ _ _ _ _ _ outcome
  have twice : (parts Char.isAlphanum "postgresql" (fun name => (List.lookup name [("a", 7)]).isSome)
      "SELECT :a, :a %".toList).filterMap Part.name = ["a", "a"] := by decide +kernel
  rw [← same, List.filterMap_map] at twice
  have pair : said chunks = ["a", "a"] := twice
  rw [pair] at counted
  exact absurd counted (by decide)

end DbaBrain.Lib.PostgresLexers
