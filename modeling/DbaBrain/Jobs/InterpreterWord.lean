import DbaBrain.Foundation.Shell
import DbaBrain.Lib.ModuleHeaders

/-!
# The interpreter of a scheduled command

A command that begins with a bare word for Python is run by the interpreter of the
daemon.  The word is recognised as the shell reads it and cut off as it is written,
by the length it is read with.
-/

namespace DbaBrain.Jobs.InterpreterWord

open DbaBrain.Foundation DbaBrain.Foundation.Text
open DbaBrain.Lib.ModuleHeaders (lowered lowered_append lowered_cons)

def interpreterWords : List (List Char) :=
  ["python".toList, "python3".toList, "python.exe".toList, "python3.exe".toList]

local instance wordsLawful : LawfulBEq (List Char) := inferInstance

def isInterpreterWord (word : List Char) : Bool := lowered word ∈ interpreterWords

/-- The path of the interpreter as it is written on a command line. -/
def quotedExecutable (windows : Bool) (executable : List Char) : List Char :=
  if windows then '"' :: (executable ++ ['"']) else Shell.quote executable

def useThisInterpreter (windows : Bool) (executable commandText : List Char) : List Char :=
  let stripped := commandText.dropWhile isSpace
  if stripped = [] then commandText
  else
    match Shell.split stripped with
    | .error _ => commandText
    -- a text that begins with no blank has a word
    | .ok [] => commandText
    | .ok (first :: _) =>
        if isInterpreterWord first = false then commandText
        else
          let leading := commandText.take (commandText.length - stripped.length)
          leading ++ quotedExecutable windows executable ++ stripped.drop first.length

/-! ## The words for Python -/

section Words

variable {c : Char} {word : List Char}

/-- A word for Python has letters, digits and dots alone. -/
theorem interpreter_char (interpreter : isInterpreterWord word = true) (member : c ∈ word) :
    isSpace c = false ∧ Shell.isBlank c = false ∧ Shell.isQuote c = false ∧ c ≠ '\\' := by
  have letters : (interpreterWords.all fun lower => lower.all fun d => d ∈ "python3.ex".toList) = true := by
    decide +kernel
  have inside : ∀ d ∈ lowered [c], d ∈ "python3.ex".toList := by
    obtain ⟨front, back, rfl⟩ := List.append_of_mem member
    intro d letter
    have word_letters := List.all_eq_true.mp (List.all_eq_true.mp letters _ (of_decide_eq_true interpreter)) d
    refine of_decide_eq_true (word_letters ?_)
    rw [lowered_append, lowered_cons]
    exact List.mem_append_right _ (List.mem_append_left _ letter)
  by_cases upper : 65 ≤ c.toNat ∧ c.toNat ≤ 90
  · have other {d : Char} (apart : d.toNat < 65 ∨ 90 < d.toNat) : c ≠ d := by
      rintro rfl
      omega
    refine ⟨?_, ?_, ?_, other (by decide)⟩
    · simp only [isSpace, Bool.or_eq_false_iff, Bool.and_eq_false_iff, decide_eq_false_iff_not, List.mem_cons,
        List.not_mem_nil, or_false]
      omega
    · simp only [Shell.isBlank, Bool.or_eq_false_iff, decide_eq_false_iff_not]
      exact ⟨⟨⟨other (by decide), other (by decide)⟩, other (by decide)⟩, other (by decide)⟩
    · simp only [Shell.isQuote, Bool.or_eq_false_iff, decide_eq_false_iff_not]
      exact ⟨other (by decide), other (by decide)⟩
  · have lower : c.toLower = c := dif_neg upper
    have itself : c ∈ "python3.ex".toList := by
      simp only [lowered, List.flatMap_singleton] at inside
      split_ifs at inside with kelvin dotted
      · exact absurd (inside 'k' (by simp)) (by decide)
      · exact absurd (inside 'i' (by simp)) (by decide)
      · exact lower ▸ inside c.toLower (by simp)
    have plain : ("python3.ex".toList.all fun d =>
        isSpace d = false ∧ Shell.isBlank d = false ∧ Shell.isQuote d = false ∧ d ≠ '\\') = true := by
      decide +kernel
    exact of_decide_eq_true (List.all_eq_true.mp plain c itself)

theorem interpreter_ne_nil (interpreter : isInterpreterWord word = true) : word ≠ [] := by
  rintro rfl
  exact absurd interpreter (by decide)

end Words

/-! ## The path as it is written -/

/-- A path that double quotes keep: it has none itself, and behind a backslash stands another character. -/
def keptInQuotes : List Char → Bool
  | [] => true
  | ['\\'] => false
  | '\\' :: c :: rest => c ≠ '\\' && c ≠ '"' && keptInQuotes rest
  | c :: rest => c ≠ '"' && keptInQuotes rest

theorem splitFrom_kept {path : List Char} (kept : keptInQuotes path = true) (token : List Char) (quoted : Bool)
    (rest : List Char) : Shell.splitFrom (.quoted '"') token quoted (path ++ '"' :: rest) =
      Shell.splitFrom .word (token ++ path) true rest := by
  induction path using keptInQuotes.induct generalizing token quoted with
  | case1 => simp [Shell.splitFrom]
  | case2 => exact absurd kept (by decide)
  | case3 c path ih =>
    simp only [keptInQuotes, Bool.and_eq_true, decide_eq_true_eq] at kept
    obtain ⟨⟨backslash, unquoted⟩, later⟩ := kept
    simp [Shell.splitFrom, backslash, unquoted, ih later]
  | case4 c path single pair ih =>
    have plain : c ≠ '\\' := by
      rintro rfl
      cases path with
      | nil => exact single rfl rfl
      | cons d path => exact pair d path rfl rfl
    rw [keptInQuotes] at kept
    · simp only [Bool.and_eq_true, decide_eq_true_eq] at kept
      simp [Shell.splitFrom, kept.1, plain, ih kept.2]
    · exact single
    · exact pair

/-- The path is read back, and the word goes on behind it. -/
theorem split_quotedExecutable {windows : Bool} {executable : List Char}
    (kept : windows = true → keptInQuotes executable = true) : ∃ quoted, Shell.Begun .word executable quoted ∧
      ∀ rest, Shell.split (quotedExecutable windows executable ++ rest) =
        Shell.splitFrom .word executable quoted rest := by
  unfold quotedExecutable
  cases windows with
  | false => exact Shell.split_quote_append executable
  | true =>
    refine ⟨true, fun _ => rfl, fun rest => ?_⟩
    have read := splitFrom_kept (kept rfl) [] false rest
    rw [if_pos rfl, List.cons_append, List.append_assoc, List.singleton_append]
    exact read

/-! ## The word that is cut off -/

section Cut

variable {first stripped executable : List Char} {rest : List (List Char)} {quoted : Bool}

theorem swapped_of_prefix (begun : Shell.Begun .word executable quoted) (interpreter : isInterpreterWord first = true)
    (read : Shell.split stripped = .ok (first :: rest)) (stands : first <+: stripped) :
    Shell.splitFrom .word executable quoted (stripped.drop first.length) = .ok (executable :: rest) := by
  obtain ⟨behind, rfl⟩ := stands
  rw [List.drop_left]
  have plain := fun c member => (interpreter_char (c := c) interpreter member).2
  have filled := interpreter_ne_nil interpreter
  obtain ⟨c, first, rfl⟩ := List.exists_cons_of_ne_nil filled
  have start : Shell.split (c :: first ++ behind) = Shell.splitFrom .word (c :: first ++ []) false behind := by
    rw [List.cons_append, Shell.split_eq_word (plain c List.mem_cons_self).1, ← List.cons_append,
      Shell.splitFrom_plain_append [] false behind plain, List.append_nil, List.nil_append]
  rw [start] at read
  have begun_first : Shell.Begun .word (c :: first ++ []) false := fun empty => absurd empty (by simp)
  have begun_path : Shell.Begun .word (executable ++ []) quoted := by rwa [List.append_nil]
  obtain ⟨back, later, same, other⟩ := Shell.splitFrom_other begun_first begun_path read
  rw [List.cons.injEq, List.self_eq_append_right] at same
  rw [List.append_nil, same.1, ← same.2, List.append_nil] at other
  exact other

variable {token text : List Char}

/-- Cutting within a word that is being read leaves no more than is held there. -/
theorem begun_of_cut {mode : Shell.Mode} {flag : Bool} {count : Nat} (begun : Shell.Begun mode token flag)
    (read : Shell.splitFrom mode token flag text = .ok (first :: rest)) (short : mode.held token + count ≤ first.length) :
    ∃ mode' token' flag', Shell.Begun mode' token' flag' ∧
      Shell.splitFrom mode' token' flag' (text.drop count) = .ok (first :: rest) ∧
        token'.length ≤ mode.held token + count := by
  rw [← List.take_append_drop count text] at read
  have taken : (text.take count).length ≤ count := List.length_take_le _ _
  rcases Shell.splitFrom_cut begun read with ended | ⟨mode', token', flag', begun', read', held⟩
  · omega
  · have inside := Shell.length_le_held mode' token' fun blank => (blank ▸ begun').elim
    exact ⟨mode', token', flag', begun', read', by omega⟩

/-- Where a word does not stand as it is read, cutting it off by its length ends before its last letter. -/
theorem unfinished_of_cut (starts : token = [] → ∀ c ∈ text.head?, Shell.isBlank c = false)
    (read : Shell.splitFrom .word token false text = .ok (first :: rest)) (filled : first ≠ [])
    (stands : ¬ first <+: token ++ text) : ∃ mode token' flag, Shell.Begun mode token' flag ∧
      Shell.splitFrom mode token' flag (text.drop (first.length - token.length)) = .ok (first :: rest) ∧
        token'.length < first.length := by
  induction text generalizing token with
  | nil =>
    rw [Shell.splitFrom, Shell.ended] at read
    split_ifs at read with empty
    · cases read
    · have same : token = first := (List.cons.inj (Except.ok.inj read)).1
      exact absurd (same ▸ List.prefix_append _ _) stands
  | cons c text ih =>
    have longer : token.length < first.length := by
      by_cases empty : token = []
      · rw [empty]
        exact List.length_pos_iff.mpr filled
      · have begun : Shell.Begun .word token false := fun nothing => absurd nothing empty
        obtain ⟨word, later, same, front, -⟩ := Shell.token_of_splitFrom begun read
        rw [← (List.cons.inj same).1] at front
        refine lt_of_le_of_ne front.length_le fun equal => stands ?_
        exact front.eq_of_length equal ▸ List.prefix_append _ _
    obtain ⟨count, count_eq⟩ : ∃ count, first.length - token.length = count + 1 :=
      ⟨first.length - token.length - 1, by omega⟩
    rw [count_eq, List.drop_succ_cons]
    rw [Shell.splitFrom] at read
    split_ifs at read with blank quotes backslash
    · have begun : Shell.Begun .word token false := by
        intro empty
        exact absurd blank (by rw [starts empty c rfl]; exact Bool.false_ne_true)
      rw [Shell.ended_begun begun] at read
      obtain ⟨later, -, same⟩ := Shell.eq_of_map_eq_ok read
      rw [List.singleton_append, List.cons.injEq] at same
      exact absurd (same.1 ▸ List.prefix_append _ _) stands
    · have room : Shell.Mode.held (.quoted c) token + count ≤ first.length := by
        simp only [Shell.Mode.held]
        omega
      obtain ⟨mode, token', flag, begun, read', held⟩ := begun_of_cut (by exact quotes) read room
      simp only [Shell.Mode.held] at held
      exact ⟨mode, token', flag, begun, read', by omega⟩
    · cases count with
      | zero => exact ⟨.escaped false, token, false, trivial, read, longer⟩
      | succ count =>
        cases text with
        | nil => cases read
        | cons d text =>
          rw [Shell.splitFrom] at read
          have one : (token ++ [d]).length = token.length + 1 := by simp
          have room : Shell.Mode.held .word (token ++ [d]) + count ≤ first.length := by
            simp only [Shell.Mode.held]
            omega
          obtain ⟨mode, token', flag, begun, read', held⟩ :=
            begun_of_cut (Shell.begun_append token d false) read room
          simp only [Shell.Mode.held] at held
          exact ⟨mode, token', flag, begun, read', by omega⟩
    · have spelled : token ++ c :: text = token ++ [c] ++ text := by simp
      have one : (token ++ [c]).length = token.length + 1 := by simp
      have cut : first.length - (token ++ [c]).length = count := by omega
      rw [spelled] at stands
      obtain ⟨mode, token', flag, begun, read', short⟩ := ih (fun empty => absurd empty (by simp)) read stands
      exact ⟨mode, token', flag, begun, cut ▸ read', short⟩

theorem prefix_of_swapped (begun : Shell.Begun .word executable quoted) (interpreter : isInterpreterWord first = true)
    (read : Shell.split stripped = .ok (first :: rest)) (starts : ∀ c ∈ stripped.head?, Shell.isBlank c = false)
    (swapped : Shell.splitFrom .word executable quoted (stripped.drop first.length) = .ok (executable :: rest)) :
    first <+: stripped := by
  by_contra stands
  obtain ⟨c, text, rfl⟩ : ∃ c text, stripped = c :: text := by
    cases stripped with
    | nil => exact absurd read (by simp [Shell.split, Shell.splitFrom])
    | cons c text => exact ⟨c, text, rfl⟩
  rw [Shell.split_eq_word (starts c rfl)] at read
  obtain ⟨mode, token, flag, begun', read', short⟩ := unfinished_of_cut (fun _ => starts) read
    (interpreter_ne_nil interpreter) stands
  have quotes := Shell.quotes_of_unchanged begun swapped (Nat.le_refl _)
  obtain ⟨d, member, wrong⟩ := Shell.quote_mem_of_quotes begun' quotes read' short
  obtain ⟨-, unblank, unquoted, -⟩ := interpreter_char interpreter member
  rcases wrong with quote | blank
  · exact Bool.false_ne_true (unquoted.symm.trans quote)
  · exact Bool.false_ne_true (unblank.symm.trans blank)

end Cut

/-! ## The command -/

/-- The law of the interpreter at a command: where its first word is one for Python that word alone is swapped, and any
other command stays. -/
def Swaps (windows : Bool) (executable commandText : List Char) : Prop :=
  (∀ first rest, Shell.split commandText = .ok (first :: rest) → isInterpreterWord first = true →
    Shell.split (useThisInterpreter windows executable commandText) = .ok (executable :: rest)) ∧
  ((∀ first rest, Shell.split commandText = .ok (first :: rest) → isInterpreterWord first = false) →
    useThisInterpreter windows executable commandText = commandText)

/-- A word for Python behind the blanks of the command stands as it is read, and the blanks are those of the shell; where
some are not, the path as it is written is what stands there. -/
def Swappable (windows : Bool) (executable commandText : List Char) : Prop :=
  let stripped := commandText.dropWhile isSpace
  ∀ first rest, Shell.split stripped = .ok (first :: rest) → isInterpreterWord first = true →
    if (commandText.takeWhile isSpace).all Shell.isBlank = true then first <+: stripped
    else quotedExecutable windows executable = stripped.take first.length

section Command

variable {windows : Bool} {executable commandText first : List Char} {rest : List (List Char)}

theorem useThisInterpreter_of_word (read : Shell.split (commandText.dropWhile isSpace) = .ok (first :: rest))
    (interpreter : isInterpreterWord first = true) : useThisInterpreter windows executable commandText =
      commandText.takeWhile isSpace ++
        (quotedExecutable windows executable ++ (commandText.dropWhile isSpace).drop first.length) := by
  have filled : commandText.dropWhile isSpace ≠ [] := by
    intro empty
    rw [empty] at read
    cases read
  have leading : commandText.take (commandText.length - (commandText.dropWhile isSpace).length) =
      commandText.takeWhile isSpace := by
    have cut : commandText.takeWhile isSpace ++ commandText.dropWhile isSpace = commandText :=
      List.takeWhile_append_dropWhile
    have lengths := congrArg List.length cut
    rw [List.length_append] at lengths
    calc commandText.take (commandText.length - (commandText.dropWhile isSpace).length)
        = commandText.take (commandText.takeWhile isSpace).length := by rw [← lengths, Nat.add_sub_cancel]
      _ = (commandText.takeWhile isSpace ++ commandText.dropWhile isSpace).take
            (commandText.takeWhile isSpace).length := by rw [cut]
      _ = commandText.takeWhile isSpace := List.take_left
  unfold useThisInterpreter
  dsimp only
  rw [if_neg filled, read]
  dsimp only
  rw [if_neg (by rw [interpreter]; exact Bool.true_eq_false_eq_False), leading, List.append_assoc]

/-- Without a word for Python the command stays. -/
theorem useThisInterpreter_of_none (none : ∀ first rest, Shell.split (commandText.dropWhile isSpace) =
    .ok (first :: rest) → isInterpreterWord first = false) :
    useThisInterpreter windows executable commandText = commandText := by
  unfold useThisInterpreter
  dsimp only
  split
  · rfl
  · split
    · rfl
    · rfl
    · next first rest read => rw [if_pos (none first rest read)]

theorem isSpace_of_isBlank {c : Char} (blank : Shell.isBlank c = true) : isSpace c = true := by
  simp only [Shell.isBlank, Bool.or_eq_true, decide_eq_true_eq] at blank
  rcases blank with ((rfl | rfl) | rfl) | rfl <;> decide

/-- A blank that is none for the shell stays in the first word, which is then no word for Python. -/
theorem not_interpreter_of_space (strange : ¬ (commandText.takeWhile isSpace).all Shell.isBlank = true)
    (read : Shell.split commandText = .ok (first :: rest)) : isInterpreterWord first = false := by
  obtain ⟨c, found, strange⟩ : ∃ c ∈ commandText.takeWhile isSpace, Shell.isBlank c = false := by
    simpa using strange
  have space : ∀ d ∈ commandText.takeWhile isSpace, isSpace d = true := fun d member => List.mem_takeWhile_imp member
  -- the first such blank begins the word
  have lead : ∃ blanks d text, (∀ e ∈ blanks, Shell.isBlank e = true) ∧ isSpace d = true ∧ Shell.isBlank d = false ∧
      commandText = blanks ++ d :: text := by
    obtain ⟨others, same⟩ := List.takeWhile_prefix isSpace (l := commandText)
    rw [← same]
    generalize commandText.takeWhile isSpace = leading at found space
    induction leading with
    | nil => cases found
    | cons e leading ih =>
      obtain ⟨first_space, others_space⟩ := List.forall_mem_cons.mp space
      cases blank : Shell.isBlank e with
      | false => exact ⟨[], e, leading ++ others, by simp, first_space, blank, rfl⟩
      | true =>
        have inside : c ∈ leading := by
          rcases List.mem_cons.mp found with rfl | inside
          · exact absurd (strange.symm.trans blank) Bool.false_ne_true
          · exact inside
        obtain ⟨blanks, d, text, all_blank, rest⟩ := ih inside others_space
        exact ⟨e :: blanks, d, text, List.forall_mem_cons.mpr ⟨blank, all_blank⟩, rest.1, rest.2.1,
          congrArg (e :: ·) rest.2.2⟩
  obtain ⟨blanks, d, text, all_blank, d_space, unblank, spelled⟩ := lead
  have plain : Shell.isQuote d = false ∧ d ≠ '\\' := by
    refine ⟨?_, fun backslash => absurd (backslash ▸ d_space) (by decide)⟩
    rw [← Bool.not_eq_true]
    intro quotes
    simp only [Shell.isQuote, Bool.or_eq_true, decide_eq_true_eq] at quotes
    rcases quotes with rfl | rfl <;> exact absurd d_space (by decide)
  rw [spelled, Shell.split_blanks all_blank, Shell.split_eq_word unblank, Shell.splitFrom, unblank,
    if_neg Bool.false_ne_true, plain.1, if_neg Bool.false_ne_true, if_neg plain.2] at read
  obtain ⟨word, later, same, front, -⟩ := Shell.token_of_splitFrom (Shell.begun_append [] d false) read
  rw [← (List.cons.inj same).1] at front
  rw [← Bool.not_eq_true]
  intro interpreter
  have member : d ∈ first := front.subset (List.mem_append_right _ List.mem_cons_self)
  exact Bool.false_ne_true ((interpreter_char interpreter member).1.symm.trans d_space)

/-- The command's first word is swapped, and nothing else, exactly where the word stands as it is read. -/
theorem interpreter_swapped_iff (kept : windows = true → keptInQuotes executable = true) :
    Swaps windows executable commandText ↔ Swappable windows executable commandText := by
  have cut : commandText.takeWhile isSpace ++ commandText.dropWhile isSpace = commandText :=
    List.takeWhile_append_dropWhile
  have plain_lead (blank : (commandText.takeWhile isSpace).all Shell.isBlank = true) (text : List Char) :
      Shell.split (commandText.takeWhile isSpace ++ text) = Shell.split text :=
    Shell.split_blanks (List.all_eq_true.mp blank) text
  by_cases word : ∃ first rest, Shell.split (commandText.dropWhile isSpace) = .ok (first :: rest) ∧
      isInterpreterWord first = true
  · obtain ⟨first, rest, read, interpreter⟩ := word
    have written := @useThisInterpreter_of_word windows executable _ _ _ read interpreter
    have condition : Swappable windows executable commandText ↔
        if (commandText.takeWhile isSpace).all Shell.isBlank = true then first <+: commandText.dropWhile isSpace
        else quotedExecutable windows executable = (commandText.dropWhile isSpace).take first.length := by
      unfold Swappable
      dsimp only
      refine ⟨fun swappable => swappable first rest read interpreter, fun holds other later read_other _ => ?_⟩
      have same := (List.cons.inj (Except.ok.inj (read_other.symm.trans read))).1
      subst same
      exact holds
    rw [condition]
    split
    · next blank =>
        have same : Shell.split commandText = .ok (first :: rest) := by
          rw [← read, ← plain_lead blank (commandText.dropWhile isSpace), cut]
        obtain ⟨quoted, begun, path⟩ := split_quotedExecutable kept
        have swapped : Shell.split (useThisInterpreter windows executable commandText) =
            Shell.splitFrom .word executable quoted ((commandText.dropWhile isSpace).drop first.length) := by
          rw [written, plain_lead blank, path]
        have starts : ∀ c ∈ (commandText.dropWhile isSpace).head?, Shell.isBlank c = false := by
          intro c head
          have stops := List.head?_dropWhile_not isSpace commandText
          rw [Option.mem_def.mp head] at stops
          rw [← Bool.not_eq_true]
          exact fun blank => absurd (isSpace_of_isBlank blank) (by simpa using stops)
        constructor
        · intro swaps
          exact prefix_of_swapped begun interpreter read starts (swapped ▸ swaps.1 first rest same interpreter)
        · intro stands
          refine ⟨fun other later read_other _ => ?_, fun none => ?_⟩
          · rw [swapped, (List.cons.inj (Except.ok.inj (read_other.symm.trans same))).2]
            exact swapped_of_prefix begun interpreter read stands
          · exact absurd interpreter (by rw [none first rest same]; exact Bool.false_ne_true)
    · next strange =>
        have never : ∀ other later, Shell.split commandText = .ok (other :: later) →
            isInterpreterWord other = false := fun other later read_other => not_interpreter_of_space strange read_other
        have stays : Swaps windows executable commandText ↔
            useThisInterpreter windows executable commandText = commandText := by
          refine ⟨fun swaps => swaps.2 never, fun same => ⟨fun other later read_other is_one => ?_, fun _ => same⟩⟩
          exact absurd is_one (by rw [never other later read_other]; exact Bool.false_ne_true)
        rw [stays, written]
        constructor
        · intro same
          have cut_word := List.take_append_drop first.length (commandText.dropWhile isSpace)
          have equal : commandText.takeWhile isSpace ++
              (quotedExecutable windows executable ++ (commandText.dropWhile isSpace).drop first.length) =
                commandText.takeWhile isSpace ++ ((commandText.dropWhile isSpace).take first.length ++
                  (commandText.dropWhile isSpace).drop first.length) := by rw [cut_word, cut, same]
          exact List.append_cancel_right (List.append_cancel_left equal)
        · intro same
          rw [same, List.take_append_drop, cut]
  · have none : ∀ first rest, Shell.split (commandText.dropWhile isSpace) = .ok (first :: rest) →
        isInterpreterWord first = false := by
      intro first rest read
      rw [← Bool.not_eq_true]
      exact fun interpreter => word ⟨first, rest, read, interpreter⟩
    refine iff_of_true ⟨fun first rest read interpreter => ?_, fun _ => useThisInterpreter_of_none none⟩ ?_
    · by_cases blank : (commandText.takeWhile isSpace).all Shell.isBlank = true
      · have same := plain_lead blank (commandText.dropWhile isSpace)
        rw [cut, read] at same
        exact absurd interpreter (by rw [none first rest same.symm]; exact Bool.false_ne_true)
      · exact absurd interpreter (by rw [not_interpreter_of_space blank read]; exact Bool.false_ne_true)
    · intro first rest read interpreter
      exact absurd interpreter (by rw [none first rest read]; exact Bool.false_ne_true)

end Command

theorem plain_command_swaps : Swaps false "/opt/my venv/bin/python".toList "  python -m dbabrain.cli 'a b'".toList := by
  refine (interpreter_swapped_iff (fun other => absurd other Bool.false_ne_true)).mpr ?_
  intro first rest read _
  have words : Shell.split ("  python -m dbabrain.cli 'a b'".toList.dropWhile isSpace) =
      .ok ["python".toList, "-m".toList, "dbabrain.cli".toList, "a b".toList] := by rfl
  rw [← (List.cons.inj (Except.ok.inj (words.symm.trans read))).1, if_pos (by decide)]
  exact ⟨" -m dbabrain.cli 'a b'".toList, by rfl⟩

/-- A quoted word is cut within its quotes, and what is left of them opens a new one. -/
theorem quoted_word_breaks : ¬ Swaps false "/usr/bin/python3".toList "\"python\" -m dbabrain.cli".toList := by
  intro swaps
  have words : Shell.split "\"python\" -m dbabrain.cli".toList =
      .ok ["python".toList, "-m".toList, "dbabrain.cli".toList] := by rfl
  have swapped := swaps.1 _ _ words (by decide)
  have broken : Shell.split (useThisInterpreter false "/usr/bin/python3".toList
      "\"python\" -m dbabrain.cli".toList) = .error "No closing quotation" := by rfl
  cases swapped.symm.trans broken

end DbaBrain.Jobs.InterpreterWord
