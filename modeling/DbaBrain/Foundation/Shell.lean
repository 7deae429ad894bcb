import Mathlib.Data.List.Basic

/-!
# Words of a shell line

A line is read as a POSIX shell reads it: blanks are between words, quotes and
backslashes are taken off.  A word that was quoted is read back as it was, and
words with a blank between are read one after another.
-/

namespace DbaBrain.Foundation.Shell

/-- The characters between words. -/
def isBlank (c : Char) : Bool := c = ' ' || c = '\t' || c = '\r' || c = '\n'

def isQuote (c : Char) : Bool := c = '\'' || c = '"'

/-- Between words, in one, behind a quote, or behind a backslash that is between double quotes or not. -/
inductive Mode
  | blank
  | word
  | quoted (quote : Char)
  | escaped (within : Bool)

/-- A word ends: one that holds nothing and was not quoted is none. -/
def ended (token : List Char) (quoted : Bool) : List (List Char) := if token = [] ∧ quoted = false then [] else [token]

/-- The words of what is left, with the word read so far and whether a part of it was quoted. -/
def splitFrom : Mode → List Char → Bool → List Char → Except String (List (List Char))
  | .blank, _, _, [] => .ok []
  | .word, token, quoted, [] => .ok (ended token quoted)
  | .quoted _, _, _, [] => .error "No closing quotation"
  | .escaped _, _, _, [] => .error "No escaped character"
  | .blank, _, _, c :: rest =>
      if isBlank c then splitFrom .blank [] false rest
      else if c = '\\' then splitFrom (.escaped false) [] false rest
      else if isQuote c then splitFrom (.quoted c) [] false rest
      else splitFrom .word [c] false rest
  | .word, token, quoted, c :: rest =>
      if isBlank c then (splitFrom .blank [] false rest).map (ended token quoted ++ ·)
      else if isQuote c then splitFrom (.quoted c) token quoted rest
      else if c = '\\' then splitFrom (.escaped false) token quoted rest
      else splitFrom .word (token ++ [c]) quoted rest
  | .quoted quote, token, _, c :: rest =>
      if c = quote then splitFrom .word token true rest
      else if c = '\\' ∧ quote = '"' then splitFrom (.escaped true) token true rest
      else splitFrom (.quoted quote) (token ++ [c]) true rest
  | .escaped true, token, quoted, c :: rest =>
      splitFrom (.quoted '"') (token ++ if c ≠ '\\' ∧ c ≠ '"' then ['\\', c] else [c]) quoted rest
  | .escaped false, token, quoted, c :: rest => splitFrom .word (token ++ [c]) quoted rest

/-- `shlex.split`. -/
def split (text : List Char) : Except String (List (List Char)) := splitFrom .blank [] false text

-- a backslash at the end escapes nothing
example : split ['\\'] = .error "No escaped character" := by simp [split, splitFrom, isBlank]

/-- The characters a word may have that is not quoted. -/
def isSafe (c : Char) : Bool :=
  ('A' ≤ c && c ≤ 'Z') || ('a' ≤ c && c ≤ 'z') || ('0' ≤ c && c ≤ '9') || c ∈ "_@%+=:,./-".toList

/-- `shlex.quote`. -/
def quote (text : List Char) : List Char :=
  if text = [] then ['\'', '\'']
  else if text.all isSafe then text
  else '\'' :: (text.flatMap fun c => if c = '\'' then ['\'', '"', '\'', '"', '\''] else [c]) ++ ['\'']

/-! ## Words one after another -/

theorem map_nil_append (result : Except String (List (List Char))) : result.map ([] ++ ·) = result := by
  cases result <;> rfl

theorem map_append_map (result : Except String (List (List Char))) (first second : List (List Char)) :
    (result.map (second ++ ·)).map (first ++ ·) = result.map (first ++ second ++ ·) := by
  cases result with
  | error message => rfl
  | ok tokens => exact congrArg Except.ok (List.append_assoc _ _ _).symm

variable {tokens : List (List Char)} {token text : List Char}

theorem eq_of_map_eq_ok {result : Except String (List (List Char))} {before : List (List Char)}
    (mapped : result.map (before ++ ·) = .ok tokens) : ∃ later, result = .ok later ∧ tokens = before ++ later := by
  cases result with
  | error message => cases mapped
  | ok later => exact ⟨later, rfl, (Except.ok.inj mapped).symm⟩

variable {mode : Mode} {quoted : Bool} {c : Char}

/-- What stands behind a text that was read to its end, and a blank, is read by itself. -/
theorem splitFrom_append (read : splitFrom mode token quoted text = .ok tokens) (rest : List Char) :
    splitFrom mode token quoted (text ++ ' ' :: rest) = (split rest).map (tokens ++ ·) := by
  have space : isBlank ' ' = true := rfl
  induction text generalizing mode token quoted tokens with
  | nil =>
    rw [List.nil_append]
    cases mode with
    | blank =>
      rw [splitFrom] at read
      rw [splitFrom, if_pos space, ← Except.ok.inj read, map_nil_append]
      rfl
    | word =>
      rw [splitFrom] at read
      rw [splitFrom, if_pos space, ← Except.ok.inj read]
      rfl
    | quoted => cases read
    | escaped => cases read
  | cons c text ih =>
    rw [List.cons_append]
    cases mode with
    | blank =>
      rw [splitFrom] at read ⊢
      split_ifs at read ⊢ <;> exact ih read
    | word =>
      rw [splitFrom] at read ⊢
      split_ifs at read ⊢ with blank
      · obtain ⟨later, inner, rfl⟩ := eq_of_map_eq_ok read
        rw [ih inner, map_append_map]
      all_goals exact ih read
    | quoted quote =>
      rw [splitFrom] at read ⊢
      split_ifs at read ⊢ <;> exact ih read
    | escaped within =>
      cases within with
      | true =>
        rw [splitFrom] at read ⊢
        exact ih read
      | false =>
        rw [splitFrom] at read ⊢
        exact ih read

theorem split_append (read : split text = .ok tokens) (rest : List Char) :
    split (text ++ ' ' :: rest) = (split rest).map (tokens ++ ·) :=
  splitFrom_append read rest

/-- Words that are read each as one value, and a rest behind them. -/
theorem split_words {words : List (List Char × List Char)} (each : ∀ word ∈ words, split word.1 = .ok [word.2])
    (rest : List Char) : split ((words.flatMap fun word => word.1 ++ [' ']) ++ rest) =
      (split rest).map (words.map Prod.snd ++ ·) := by
  induction words with
  | nil => exact (map_nil_append _).symm
  | cons word words ih =>
    obtain ⟨first, others⟩ := List.forall_mem_cons.mp each
    rw [List.flatMap_cons, List.append_assoc, List.append_assoc, List.singleton_append, split_append first, ih others,
      map_append_map]
    rfl

/-! ## Single words -/

/-- Characters that are no blanks, quotes or backslashes come to the word. -/
theorem splitFrom_plain_append (token : List Char) (quoted : Bool) (rest : List Char)
    (plain : ∀ c ∈ text, isBlank c = false ∧ isQuote c = false ∧ c ≠ '\\') :
    splitFrom .word token quoted (text ++ rest) = splitFrom .word (token ++ text) quoted rest := by
  induction text generalizing token with
  | nil => rw [List.nil_append, List.append_nil]
  | cons c text ih =>
    obtain ⟨⟨unblank, unquoted, unescaped⟩, others⟩ := List.forall_mem_cons.mp plain
    rw [List.cons_append, splitFrom, unblank, if_neg Bool.false_ne_true, unquoted, if_neg Bool.false_ne_true,
      if_neg unescaped, ih (token ++ [c]) others, List.append_assoc]
    rfl

theorem splitFrom_plain (quoted : Bool) (plain : ∀ c ∈ text, isBlank c = false ∧ isQuote c = false ∧ c ≠ '\\')
    (filled : token ≠ []) : splitFrom .word token quoted text = .ok [token ++ text] := by
  have read := splitFrom_plain_append token quoted [] plain
  rw [List.append_nil] at read
  rw [read, splitFrom, ended, if_neg fun both => filled (List.append_eq_nil_iff.mp both.1).1]

/-- A word without blanks, quotes and backslashes is read as it is. -/
theorem split_plain (plain : ∀ c ∈ text, isBlank c = false ∧ isQuote c = false ∧ c ≠ '\\') (filled : text ≠ []) :
    split text = .ok [text] := by
  obtain ⟨c, rest, rfl⟩ := List.exists_cons_of_ne_nil filled
  obtain ⟨⟨unblank, unquoted, unescaped⟩, others⟩ := List.forall_mem_cons.mp plain
  rw [split, splitFrom, unblank, if_neg Bool.false_ne_true, if_neg unescaped, unquoted, if_neg Bool.false_ne_true,
    splitFrom_plain false others (List.cons_ne_nil _ _)]
  rfl

theorem isSafe_plain (safe : isSafe c = true) : isBlank c = false ∧ isQuote c = false ∧ c ≠ '\\' := by
  refine ⟨?_, ?_, ?_⟩
  · rw [← Bool.not_eq_true]
    intro blank
    simp only [isBlank, Bool.or_eq_true, decide_eq_true_eq] at blank
    rcases blank with ((rfl | rfl) | rfl) | rfl <;> exact absurd safe (by decide)
  · rw [← Bool.not_eq_true]
    intro quotes
    simp only [isQuote, Bool.or_eq_true, decide_eq_true_eq] at quotes
    rcases quotes with rfl | rfl <;> exact absurd safe (by decide)
  · rintro rfl
    exact absurd safe (by decide)

theorem splitFrom_quoted (token text : List Char) (quoted : Bool) (rest : List Char) :
    splitFrom (.quoted '\'') token quoted
      ((text.flatMap fun c => if c = '\'' then ['\'', '"', '\'', '"', '\''] else [c]) ++ '\'' :: rest) =
        splitFrom .word (token ++ text) true rest := by
  induction text generalizing token quoted with
  | nil => simp [splitFrom]
  | cons c text ih =>
    rw [List.flatMap_cons, List.append_assoc]
    by_cases apostrophe : c = '\''
    · rw [if_pos apostrophe, apostrophe]
      simp [splitFrom, isBlank, isQuote, ih]
    · rw [if_neg apostrophe, List.singleton_append, splitFrom, if_neg apostrophe, if_neg (by simp), ih]
      simp

/-- A quoted word is read back, and the word goes on behind it. -/
theorem split_quote_append (text : List Char) : ∃ quoted, (text = [] → quoted = true) ∧
    ∀ rest, split (quote text ++ rest) = splitFrom .word text quoted rest := by
  unfold quote
  split
  · next empty => exact ⟨true, fun _ => rfl, fun rest => by rw [empty]; rfl⟩
  · next filled =>
      split
      · next safe =>
          refine ⟨false, fun empty => absurd empty filled, fun rest => ?_⟩
          obtain ⟨c, text, rfl⟩ := List.exists_cons_of_ne_nil filled
          have plain := fun d member => isSafe_plain (List.all_eq_true.mp safe d member)
          obtain ⟨⟨unblank, unquoted, unescaped⟩, others⟩ := List.forall_mem_cons.mp plain
          rw [List.cons_append, split, splitFrom, unblank, if_neg Bool.false_ne_true, if_neg unescaped, unquoted,
            if_neg Bool.false_ne_true, splitFrom_plain_append [c] false rest others]
          rfl
      · refine ⟨true, fun _ => rfl, fun rest => ?_⟩
        have read := splitFrom_quoted [] text false rest
        rw [List.append_assoc, List.cons_append, List.singleton_append]
        exact read

/-- A quoted word is read back. -/
theorem split_quote (text : List Char) : split (quote text) = .ok [text] := by
  obtain ⟨quoted, begun, read⟩ := split_quote_append text
  have alone := read []
  rw [List.append_nil] at alone
  rw [alone, splitFrom, ended, if_neg fun both => Bool.false_ne_true (both.2.symm.trans (begun both.1))]

/-! ## Lengths -/

/-- How much of the text is held when a place is read. -/
def Mode.held : Mode → List Char → Nat
  | .blank, _ => 0
  | .escaped _, token => token.length + 1
  | _, token => token.length

theorem length_le_held (mode : Mode) (token : List Char) (filled : mode ≠ .blank) : token.length ≤ mode.held token := by
  cases mode with
  | blank => exact absurd rfl filled
  | word => exact Nat.le_refl _
  | quoted => exact Nat.le_refl _
  | escaped => exact Nat.le_succ _

/-- What is read is no longer than the text. -/
theorem length_splitFrom_le (read : splitFrom mode token quoted text = .ok tokens) : 
    tokens.flatten.length ≤ mode.held token + text.length := by
  induction text generalizing mode token quoted tokens with
  | nil =>
    cases mode with
    | blank =>
      rw [← Except.ok.inj read]
      exact Nat.zero_le _
    | word =>
      rw [splitFrom] at read
      rw [← Except.ok.inj read, ended]
      split <;> simp [Mode.held]
    | quoted => cases read
    | escaped => cases read
  | cons c text ih =>
    rw [List.length_cons]
    cases mode with
    | blank =>
      rw [splitFrom] at read
      split_ifs at read <;> have shorter := ih read <;> simp [Mode.held] at shorter ⊢ <;> omega
    | word =>
      rw [splitFrom] at read
      split_ifs at read with blank
      · obtain ⟨later, inner, rfl⟩ := eq_of_map_eq_ok read
        have shorter := ih inner
        have one : (ended token quoted).flatten.length ≤ token.length := by
          unfold ended
          split <;> simp
        rw [List.flatten_append, List.length_append]
        simp only [Mode.held] at shorter ⊢
        omega
      all_goals
        have shorter := ih read
        simp [Mode.held] at shorter ⊢
        omega
    | quoted quote =>
      rw [splitFrom] at read
      split_ifs at read <;> have shorter := ih read <;> simp [Mode.held] at shorter ⊢ <;> omega
    | escaped within =>
      cases within with
      | true =>
        rw [splitFrom] at read
        have shorter := ih read
        split_ifs at shorter <;> simp [Mode.held] at shorter ⊢ <;> omega
      | false =>
        rw [splitFrom] at read
        have shorter := ih read
        simp [Mode.held] at shorter ⊢
        omega

/-- A word that is read as it is begins with no quote. -/
theorem isQuote_head_of_split (read : split (c :: text) = .ok [c :: text]) : isQuote c = false := by
  rw [← Bool.not_eq_true]
  intro quotes
  have unblank : isBlank c = false ∧ c ≠ '\\' := by
    simp only [isQuote, Bool.or_eq_true, decide_eq_true_eq] at quotes
    rcases quotes with rfl | rfl <;> decide
  rw [split, splitFrom, unblank.1, if_neg Bool.false_ne_true, if_neg unblank.2, if_pos quotes] at read
  have shorter := length_splitFrom_le read
  exact absurd shorter (by simp [Mode.held])

/-! ## The first word -/

section First

variable {mode : Mode} {token text word : List Char} {quoted : Bool} {later : List (List Char)}

/-- A word is being read: where it stands outside quotes, it holds something or a part of it was quoted. -/
def Begun : Mode → List Char → Bool → Prop
  | .blank, _, _ => False
  | .word, token, quoted => token = [] → quoted = true
  | .quoted quote, _, _ => isQuote quote = true
  | .escaped _, _, _ => True

theorem ended_begun (begun : Begun .word token quoted) : ended token quoted = [token] :=
  if_neg fun both => Bool.false_ne_true (both.2.symm.trans (begun both.1))

theorem begun_append (token : List Char) (c : Char) (quoted : Bool) : Begun .word (token ++ [c]) quoted :=
  fun empty => absurd empty (by simp)

theorem split_eq_word {c : Char} (unblank : isBlank c = false) (text : List Char) :
    split (c :: text) = splitFrom .word [] false (c :: text) := by
  rw [split, splitFrom, splitFrom, unblank, if_neg Bool.false_ne_true, if_neg Bool.false_ne_true]
  by_cases backslash : c = '\\'
  · rw [if_pos backslash, if_pos backslash, backslash, if_neg (by decide)]
  · rw [if_neg backslash, if_neg backslash]
    rfl

theorem split_blanks {blanks : List Char} (blank : ∀ c ∈ blanks, isBlank c = true) (text : List Char) :
    split (blanks ++ text) = split text := by
  induction blanks with
  | nil => rfl
  | cons c blanks ih =>
    obtain ⟨first, others⟩ := List.forall_mem_cons.mp blank
    rw [← ih others, List.cons_append, split, splitFrom, if_pos first]
    rfl

/-- What is read of a word stays its front, and what is begun behind a backslash comes to it. -/
theorem token_of_splitFrom (begun : Begun mode token quoted) (read : splitFrom mode token quoted text = .ok tokens) :
    ∃ word later, tokens = word :: later ∧ token <+: word ∧ mode.held token ≤ word.length := by
  induction text generalizing mode token quoted tokens with
  | nil =>
    cases mode with
    | blank => exact begun.elim
    | word =>
      rw [splitFrom, ended_begun begun] at read
      exact ⟨token, [], (Except.ok.inj read).symm, List.prefix_rfl, Nat.le_refl _⟩
    | quoted quote => cases read
    | escaped within => cases read
  | cons c text ih =>
    have grown {mode : Mode} {quoted : Bool} {more : List Char} (begun : Begun mode (token ++ more) quoted)
        (one : more ≠ []) (read : splitFrom mode (token ++ more) quoted text = .ok tokens) :
        ∃ word later, tokens = word :: later ∧ token <+: word ∧ token.length + 1 ≤ word.length := by
      obtain ⟨word, later, same, front, -⟩ := ih begun read
      have longer := front.length_le
      rw [List.length_append] at longer
      have some_more := List.length_pos_iff.mpr one
      exact ⟨word, later, same, (List.prefix_append _ _).trans front, by omega⟩
    have weaker {P : List Char → List (List Char) → Prop}
        (found : ∃ word later, P word later ∧ token <+: word ∧ token.length + 1 ≤ word.length) :
        ∃ word later, P word later ∧ token <+: word ∧ token.length ≤ word.length := by
      obtain ⟨word, later, same, front, longer⟩ := found
      exact ⟨word, later, same, front, by omega⟩
    cases mode with
    | blank => exact begun.elim
    | word =>
      rw [splitFrom] at read
      split_ifs at read with blank quotes backslash
      · rw [ended_begun begun] at read
        obtain ⟨later, -, same⟩ := eq_of_map_eq_ok read
        exact ⟨token, later, same, List.prefix_rfl, Nat.le_refl _⟩
      · have found := ih (by exact quotes) read
        exact found
      · obtain ⟨word, later, same, front, longer⟩ := ih (by exact trivial) read
        exact ⟨word, later, same, front, Nat.le_of_succ_le longer⟩
      · exact weaker (grown (begun_append token c quoted) (by simp) read)
    | quoted quote =>
      rw [splitFrom] at read
      split_ifs at read with closes backslash
      · have found := ih (by exact fun _ => rfl) read
        exact found
      · obtain ⟨word, later, same, front, longer⟩ := ih (by exact trivial) read
        exact ⟨word, later, same, front, Nat.le_of_succ_le longer⟩
      · exact weaker (grown (by exact begun) (by simp) read)
    | escaped within =>
      cases within with
      | true =>
        rw [splitFrom] at read
        refine grown (by exact rfl) ?_ read
        split <;> simp
      | false =>
        rw [splitFrom] at read
        exact grown (begun_append token c quoted) (by simp) read

/-- With another front the word is read with that front, and the words behind it are the same. -/
theorem splitFrom_other {front other more : List Char} {flag : Bool} (begun : Begun mode (front ++ more) quoted)
    (begun_other : Begun mode (other ++ more) flag) (read : splitFrom mode (front ++ more) quoted text = .ok tokens) :
    ∃ back later, tokens = (front ++ back) :: later ∧
      splitFrom mode (other ++ more) flag text = .ok ((other ++ back) :: later) := by
  induction text generalizing mode more quoted flag tokens with
  | nil =>
    cases mode with
    | blank => exact begun.elim
    | word =>
      rw [splitFrom, ended_begun begun] at read
      exact ⟨more, [], (Except.ok.inj read).symm, by rw [splitFrom, ended_begun begun_other]⟩
    | quoted quote => cases read
    | escaped within => cases read
  | cons c text ih =>
    cases mode with
    | blank => exact begun.elim
    | word =>
      rw [splitFrom] at read
      rw [splitFrom]
      split_ifs at read ⊢ with blank quotes backslash
      · rw [ended_begun begun] at read
        obtain ⟨later, same, rfl⟩ := eq_of_map_eq_ok read
        rw [ended_begun begun_other, same]
        exact ⟨more, later, rfl, rfl⟩
      · exact ih (by exact quotes) (by exact quotes) read
      · exact ih (by exact trivial) (by exact trivial) read
      · rw [List.append_assoc] at read ⊢
        refine ih ?_ ?_ read <;> rw [← List.append_assoc] <;> exact begun_append _ _ _
    | quoted quote =>
      rw [splitFrom] at read
      rw [splitFrom]
      split_ifs at read ⊢ with closes backslash
      · exact ih (by exact fun _ => rfl) (by exact fun _ => rfl) read
      · exact ih (by exact trivial) (by exact trivial) read
      · rw [List.append_assoc] at read ⊢
        exact ih (by exact begun) (by exact begun) read
    | escaped within =>
      cases within with
      | true =>
        rw [splitFrom, List.append_assoc] at read
        rw [splitFrom, List.append_assoc]
        exact ih (by exact rfl) (by exact rfl) read
      | false =>
        rw [splitFrom, List.append_assoc] at read
        rw [splitFrom, List.append_assoc]
        refine ih ?_ ?_ read <;> rw [← List.append_assoc] <;> exact begun_append _ _ _

/-- A first word either ends within a front of the text or is read on behind it. -/
theorem splitFrom_cut {rest : List Char} (begun : Begun mode token quoted)
    (read : splitFrom mode token quoted (text ++ rest) = .ok (word :: later)) :
    word.length + 1 ≤ mode.held token + text.length ∨ ∃ mode' token' quoted', Begun mode' token' quoted' ∧
      splitFrom mode' token' quoted' rest = .ok (word :: later) ∧
        mode'.held token' ≤ mode.held token + text.length := by
  induction text generalizing mode token quoted with
  | nil => exact Or.inr ⟨mode, token, quoted, begun, read, Nat.le_refl _⟩
  | cons c text ih =>
    have onward {next : Mode} {held : List Char} {flag : Bool} (begun : Begun next held flag)
        (read : splitFrom next held flag (text ++ rest) = .ok (word :: later))
        (bound : next.held held ≤ mode.held token + 1) :
        word.length + 1 ≤ mode.held token + (c :: text).length ∨ ∃ mode' token' quoted', Begun mode' token' quoted' ∧
          splitFrom mode' token' quoted' rest = .ok (word :: later) ∧
            mode'.held token' ≤ mode.held token + (c :: text).length := by
      rw [List.length_cons]
      rcases ih begun read with ended | ⟨mode', token', quoted', begun', read', bound'⟩
      · exact Or.inl (by omega)
      · exact Or.inr ⟨mode', token', quoted', begun', read', by omega⟩
    rw [List.cons_append] at read
    cases mode with
    | blank => exact begun.elim
    | word =>
      rw [splitFrom] at read
      split_ifs at read with blank quotes backslash
      · rw [ended_begun begun] at read
        obtain ⟨others, -, same⟩ := eq_of_map_eq_ok read
        rw [List.singleton_append, List.cons.injEq] at same
        rw [same.1, List.length_cons]
        exact Or.inl (by simp [Mode.held])
      · exact onward (by exact quotes) read (by simp [Mode.held])
      · exact onward (by exact trivial) read (by simp [Mode.held])
      · exact onward (begun_append token c quoted) read (by simp [Mode.held])
    | quoted quote =>
      rw [splitFrom] at read
      split_ifs at read with closes backslash
      · exact onward (by exact fun _ => rfl) read (by simp [Mode.held])
      · exact onward (by exact trivial) read (by simp [Mode.held])
      · exact onward (by exact begun) read (by simp [Mode.held])
    | escaped within =>
      cases within with
      | true =>
        rw [splitFrom] at read
        refine onward (by exact rfl) read ?_
        split <;> simp [Mode.held]
      | false =>
        rw [splitFrom] at read
        exact onward (begun_append token c quoted) read (by simp [Mode.held])

/-- A word to which nothing came was read from quotes alone. -/
theorem quotes_of_unchanged (begun : Begun mode token quoted)
    (read : splitFrom mode token quoted text = .ok (word :: later)) (unchanged : word.length ≤ token.length) :
    ∀ c ∈ text.takeWhile fun c => !isBlank c, isQuote c = true := by
  induction text generalizing mode token quoted with
  | nil => simp
  | cons c text ih =>
    have grown {next : Mode} {more : List Char} {flag : Bool} (begun : Begun next (token ++ more) flag)
        (one : more ≠ []) (read : splitFrom next (token ++ more) flag text = .ok (word :: later)) : False := by
      obtain ⟨first, others, same, front, -⟩ := token_of_splitFrom begun read
      have longer := (List.cons.inj same).1 ▸ front.length_le
      have some_more := List.length_pos_iff.mpr one
      rw [List.length_append] at longer
      omega
    have held {next : Mode} {flag : Bool} (begun : Begun next token flag)
        (read : splitFrom next token flag text = .ok (word :: later)) : next.held token ≤ token.length := by
      obtain ⟨first, others, same, -, longer⟩ := token_of_splitFrom begun read
      rw [(List.cons.inj same).1] at unchanged
      omega
    have behind (quotes : isQuote c = true) (inner : ∀ c ∈ text.takeWhile fun c => !isBlank c, isQuote c = true) :
        ∀ d ∈ (c :: text).takeWhile fun c => !isBlank c, isQuote d = true := by
      intro d member
      rw [List.takeWhile_cons] at member
      split at member
      · rcases List.mem_cons.mp member with rfl | later
        · exact quotes
        · exact inner d later
      · cases member
    cases mode with
    | blank => exact begun.elim
    | word =>
      rw [splitFrom] at read
      split_ifs at read with blank quotes backslash
      · simp [blank]
      · exact behind quotes (ih (by exact quotes) read unchanged)
      · have longer := held (by exact trivial) read
        exact absurd longer (by simp [Mode.held])
      · exact (grown (begun_append token c quoted) (by simp) read).elim
    | quoted quote =>
      rw [splitFrom] at read
      split_ifs at read with closes backslash
      · exact behind (closes ▸ begun) (ih (by exact fun _ => rfl) read unchanged)
      · have longer := held (by exact trivial) read
        exact absurd longer (by simp [Mode.held])
      · exact (grown (by exact begun) (by simp) read).elim
    | escaped within =>
      cases within with
      | true =>
        rw [splitFrom] at read
        refine (grown (by exact rfl) ?_ read).elim
        split <;> simp
      | false =>
        rw [splitFrom] at read
        exact (grown (begun_append token c quoted) (by simp) read).elim

theorem quote_mem_of_quotes (begun : Begun mode token quoted)
    (quotes : ∀ c ∈ text.takeWhile fun c => !isBlank c, isQuote c = true)
    (read : splitFrom mode token quoted text = .ok (word :: later)) (longer : token.length < word.length) :
    ∃ c ∈ word, isQuote c = true ∨ isBlank c = true := by
  induction text generalizing mode token quoted with
  | nil =>
    cases mode with
    | blank => exact begun.elim
    | word =>
      rw [splitFrom, ended_begun begun] at read
      rw [(List.cons.inj (Except.ok.inj read)).1] at longer
      exact absurd longer (Nat.lt_irrefl _)
    | quoted quote => cases read
    | escaped within => cases read
  | cons c text ih =>
    have either : isBlank c = true ∨ isQuote c = true ∧ ∀ c ∈ text.takeWhile fun c => !isBlank c, isQuote c = true := by
      cases blank : isBlank c with
      | true => exact Or.inl rfl
      | false =>
        rw [List.takeWhile_cons_of_pos (by rw [blank]; rfl)] at quotes
        exact Or.inr (List.forall_mem_cons.mp quotes)
    have taken {next : Mode} {more : List Char} {flag : Bool} (begun : Begun next (token ++ more) flag)
        (inside : c ∈ more) (read : splitFrom next (token ++ more) flag text = .ok (word :: later)) :
        ∃ c ∈ word, isQuote c = true ∨ isBlank c = true := by
      obtain ⟨first, others, same, front, -⟩ := token_of_splitFrom begun read
      rw [(List.cons.inj same).1]
      exact ⟨c, front.subset (List.mem_append_right _ inside), either.symm.imp (fun both => both.1) id⟩
    cases mode with
    | blank => exact begun.elim
    | word =>
      rw [splitFrom] at read
      split_ifs at read with blank quoted_from backslash
      · rw [ended_begun begun] at read
        obtain ⟨others, -, same⟩ := eq_of_map_eq_ok read
        rw [(List.cons.inj same).1] at longer
        exact absurd longer (Nat.lt_irrefl _)
      · exact ih (by exact quoted_from) (either.resolve_left blank).2 read longer
      · exact absurd (either.resolve_left blank).1 quoted_from
      · exact taken (begun_append token c quoted) List.mem_cons_self read
    | quoted quote =>
      rw [splitFrom] at read
      split_ifs at read with closes backslash
      · have unblank : ¬ isBlank c = true := by
          have opened : isQuote c = true := closes ▸ begun
          simp only [isQuote, Bool.or_eq_true, decide_eq_true_eq] at opened
          rcases opened with rfl | rfl <;> decide
        exact ih (by exact fun _ => rfl) (either.resolve_left unblank).2 read longer
      · have neither : isBlank c = false ∧ isQuote c = false := by
          rw [backslash.1]
          decide
        rcases either with blank | quotes'
        · exact absurd (neither.1.symm.trans blank) Bool.false_ne_true
        · exact absurd (neither.2.symm.trans quotes'.1) Bool.false_ne_true
      · exact taken (by exact begun) List.mem_cons_self read
    | escaped within =>
      cases within with
      | true =>
        rw [splitFrom] at read
        refine taken (by exact rfl) ?_ read
        split <;> simp
      | false =>
        rw [splitFrom] at read
        exact taken (begun_append token c quoted) List.mem_cons_self read

end First

end DbaBrain.Foundation.Shell
