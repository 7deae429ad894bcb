import DbaBrain.Foundation.Quoted
import DbaBrain.Foundation.Text

/-!
# Statements of the store for PostgreSQL

A statement written for SQLite has its name for the present moment and, where it
declares something, its type names replaced, and a script is cut into statements at
its semicolons.  What stands in quotes is no place for either.
-/

namespace DbaBrain.Db.StatementTranslation

open DbaBrain.Foundation.Quoted DbaBrain.Foundation.Replacing
open DbaBrain.Foundation.Text (isSpace stripChars)

/-! ## Expressions -/

/-- A character is a letter of an expression in lower case, as `IGNORECASE` reads it. -/
def spells (letter c : Char) : Bool :=
  c.toLower = letter || (letter = 'i' && (c.toNat = 0x130 || c.toNat = 0x131)) || (letter = 's' && c.toNat = 0x17F) ||
    (letter = 'k' && c.toNat = 0x212A)

inductive Item
  | word (letters : List Char)
  /-- Blanks, as many as there are but at least so many; what stands behind them is no blank. -/
  | blanks (least : Nat)

/-- What is left behind a word at the front of a text. -/
def wordAt : List Char → List Char → Option (List Char)
  | [], text => some text
  | _ :: _, [] => none
  | letter :: word, c :: text => if spells letter c then wordAt word text else none

/-- What is left behind items at the front of a text. -/
def itemsAt : List Item → List Char → Option (List Char)
  | [], text => some text
  | .word letters :: items, text => (wordAt letters text).bind (itemsAt items)
  | .blanks least :: items, text =>
      if least ≤ (text.takeWhile isSpace).length then itemsAt items (text.dropWhile isSpace) else none

def strftime : List Char := ['s', 't', 'r', 'f', 't', 'i', 'm', 'e', '(']

/-- `SQLITE_UTC_NOW_PATTERN`. -/
def sqliteUtcNow : List Item :=
  [.word strftime, .blanks 0,
    .word ['\'', '%', 'y', '-', '%', 'm', '-', '%', 'd', 't', '%', 'h', ':', '%', 'm', ':', '%', 's', 'z', '\''],
    .blanks 0, .word [','], .blanks 0, .word ['\'', 'n', 'o', 'w', '\''], .blanks 0, .word [')']]

def postgresUtcNow : List Char :=
  "to_char(now() AT TIME ZONE 'UTC', 'YYYY-MM-DD\"T\"HH24:MI:SS\"Z\"')".toList

/-- The characters of the present moment's name at the front of a text. -/
def utcNowLength (text : List Char) : Nat :=
  match itemsAt sqliteUtcNow text with
  | some rest => text.length - rest.length
  | none => 0

def foundUtcNow (_ : Option Char) (text : List Char) : Option (Nat × List Char) :=
  if 0 < utcNowLength text then some (utcNowLength text - 1, postgresUtcNow) else none

structure WordTable where
  isWord : Char → Bool
  quotes : ∀ c, isQuote c = true → isWord c = false

structure TypePattern where
  /-- The expression begins with `\b`. -/
  bounded : Bool
  items : List Item
  replacement : List Char

def integer : List Char := ['i', 'n', 't', 'e', 'g', 'e', 'r']
def primary : List Char := ['p', 'r', 'i', 'm', 'a', 'r', 'y']
def key : List Char := ['k', 'e', 'y']
def autoincrement : List Char := ['a', 'u', 't', 'o', 'i', 'n', 'c', 'r', 'e', 'm', 'e', 'n', 't']

def typeReplacements : List TypePattern :=
  [⟨true, [.word integer, .blanks 1, .word primary, .blanks 1, .word key, .blanks 1, .word autoincrement],
      "BIGINT GENERATED BY DEFAULT AS IDENTITY PRIMARY KEY".toList⟩,
    ⟨true, [.word integer, .blanks 1, .word primary, .blanks 1, .word key], "BIGINT PRIMARY KEY".toList⟩,
    ⟨true, [.word integer], "BIGINT".toList⟩, ⟨true, [.word ['r', 'e', 'a', 'l']], "DOUBLE PRECISION".toList⟩,
    ⟨true, [.word ['b', 'l', 'o', 'b']], "BYTEA".toList⟩, ⟨false, [.blanks 1, .word autoincrement], []⟩]

section Statements

variable (table : WordTable)

/-- No word goes on at the front of a text. -/
def endsWord (text : List Char) : Bool := !text.head?.any table.isWord

/-- A type's expression at a place; it ends with `\b` behind a letter. -/
def foundType (pattern : TypePattern) (before : Option Char) (text : List Char) : Option (Nat × List Char) :=
  if pattern.bounded && before.any table.isWord then none
  else
    match itemsAt pattern.items text with
    | some rest => if endsWord table rest then some (text.length - rest.length - 1, pattern.replacement) else none
    | none => none

/-- A word behind blanks at the front of a statement, as `\b` ends it. -/
def startsWith (sql word : List Char) : Bool := (wordAt word (sql.dropWhile isSpace)).any (endsWord table)

/-- `_DDL`. -/
def isDdl (sql : List Char) : Bool :=
  startsWith table sql ['c', 'r', 'e', 'a', 't', 'e'] || startsWith table sql ['a', 'l', 't', 'e', 'r'] ||
    startsWith table sql ['d', 'r', 'o', 'p']

/-- `_PRAGMA`. -/
def isPragma (sql : List Char) : Bool := startsWith table sql ['p', 'r', 'a', 'g', 'm', 'a']

/-- `[A-Za-z_]`, with the letters that `IGNORECASE` adds. -/
def startsName (c : Char) : Bool := c.isAlpha || c = '_' || c.toNat ∈ [0x130, 0x131, 0x17F, 0x212A]

def inName (c : Char) : Bool := startsName c || c.isDigit

/-- `["']?`. -/
def skipQuote : List Char → List Char
  | [] => []
  | c :: text => if isQuote c then text else c :: text

def skipSemicolon : List Char → List Char
  | ';' :: text => text
  | text => text

/-- `_PRAGMA_TABLE_INFO`, and the table it asks for. -/
def tableInfo (sql : List Char) : Option (List Char) :=
  match itemsAt [.blanks 0, .word ['p', 'r', 'a', 'g', 'm', 'a'], .blanks 1,
      .word ['t', 'a', 'b', 'l', 'e', '_', 'i', 'n', 'f', 'o'], .blanks 0, .word ['('], .blanks 0] sql with
  | none => none
  | some text =>
      let text := skipQuote text
      let name := text.takeWhile inName
      if name.head?.any startsName then
        match itemsAt [.blanks 0, .word [')'], .blanks 0] (skipQuote (text.dropWhile inName)) with
        | some rest => if (skipSemicolon rest).all isSpace then some name else none
        | none => none
      else none

def utcNowText (sql : List Char) : List Char := substitute foundUtcNow none sql

def typeText (sql : List Char) : List Char :=
  (typeReplacements.map (foundType table)).foldl (fun text finding => substitute finding none text) sql

def translateStatement (sql : List Char) : Option (List Char) :=
  if sql.all isSpace then none
  else
    match tableInfo sql with
    | some name =>
        some ("SELECT column_name AS name FROM information_schema.columns WHERE table_schema = ".toList ++
          "current_schema() AND table_name = '".toList ++ name.flatMap (fun c => if c =
            '\'' then ['\'', '\''] else [c]) ++
            ['\''])
    | none =>
        if isPragma table sql then none
        else some (if isDdl table (utcNowText sql) then typeText table (utcNowText sql) else utcNowText sql)

end Statements

/-! ## Scripts -/

/-- Where a script is read: outside of quotes, in a text in quotes, before the second of two quotes that are one, or in
a
comment. -/
inductive Mode
  | code
  | quote (sign : Char)
  | doubled
  | comment

/-- The loop of `split_statements`, with the statement read so far. -/
def splitFrom : Mode → List Char → List Char → List (List Char)
  | _, buffer, [] => [buffer]
  | .quote sign, buffer, c :: rest =>
      if c = sign then
        if sign = '\'' ∧ rest.head? = some '\'' then splitFrom .doubled (buffer ++ [c]) rest
        else splitFrom .code (buffer ++ [c]) rest
      else splitFrom (.quote sign) (buffer ++ [c]) rest
  | .doubled, buffer, c :: rest => splitFrom (.quote '\'') (buffer ++ [c]) rest
  | .comment, buffer, c :: rest =>
      if c = '\n' then splitFrom .code (buffer ++ [c]) rest else splitFrom .comment buffer rest
  | .code, buffer, c :: rest =>
      if isQuote c then splitFrom (.quote c) (buffer ++ [c]) rest
      else if c = '-' ∧ rest.head? = some '-' then splitFrom .comment buffer rest
      else if c = ';' then buffer :: splitFrom .code [] rest
      else splitFrom .code (buffer ++ [c]) rest

def splitStatements (script : List Char) : List (List Char) :=
  ((splitFrom .code [] script).filter fun item => !item.all isSpace).map stripChars

/-! ## Expressions in a text -/

section Expressions

variable {items : List Item} {text rest word : List Char}

/-- No item takes a character. -/
def isForeign (items : List Item) (c : Char) : Bool :=
  !isSpace c && items.all fun item =>
    match item with
    | .word letters => letters.all fun letter => !spells letter c
    | .blanks _ => true

theorem wordAt_eq_some (behind : wordAt word text = some rest) :
    ∃ front, text = front ++ rest ∧ ∀ c ∈ front, ∃ letter ∈ word, spells letter c = true := by
  induction word generalizing text with
  | nil =>
    cases behind
    exact ⟨[], rfl, by simp⟩
  | cons letter word ih =>
    cases text with
    | nil => cases behind
    | cons c text =>
      rw [wordAt] at behind
      split_ifs at behind with here
      obtain ⟨front, rfl, spelled⟩ := ih behind
      refine ⟨c :: front, rfl, List.forall_mem_cons.mpr ⟨⟨letter, List.mem_cons_self, here⟩, fun d member => ?_⟩⟩
      obtain ⟨other, later, same⟩ := spelled d member
      exact ⟨other, List.mem_cons_of_mem _ later, same⟩

/-- What items take has no foreign characters. -/
theorem itemsAt_eq_some (behind : itemsAt items text = some rest) :
    ∃ front, text = front ++ rest ∧ ∀ c, isForeign items c = true → c ∉ front := by
  induction items generalizing text with
  | nil =>
    cases behind
    exact ⟨[], rfl, by simp⟩
  | cons item items ih =>
    have inherit {c : Char} (foreign : isForeign (item :: items) c = true) : isForeign items c = true := by
      rw [isForeign, Bool.and_eq_true, List.all_cons, Bool.and_eq_true] at foreign
      rw [isForeign, Bool.and_eq_true]
      exact ⟨foreign.1, foreign.2.2⟩
    cases item with
    | word letters =>
      rw [itemsAt, Option.bind_eq_some_iff] at behind
      obtain ⟨middle, taken, later⟩ := behind
      obtain ⟨first, rfl, spelled⟩ := wordAt_eq_some taken
      obtain ⟨second, rfl, others⟩ := ih later
      refine ⟨first ++ second, (List.append_assoc _ _ _).symm, fun c foreign member => ?_⟩
      rcases List.mem_append.mp member with inside | inside
      · obtain ⟨letter, known, same⟩ := spelled c inside
        rw [isForeign, Bool.and_eq_true, List.all_cons, Bool.and_eq_true, List.all_eq_true] at foreign
        have other := foreign.2.1 letter known
        rw [same] at other
        cases other
      · exact others c (inherit foreign) inside
    | blanks least =>
      rw [itemsAt] at behind
      split_ifs at behind with enough
      obtain ⟨second, split, others⟩ := ih behind
      refine ⟨text.takeWhile isSpace ++ second, ?_, fun c foreign member => ?_⟩
      · rw [List.append_assoc, ← split, List.takeWhile_append_dropWhile]
      · rcases List.mem_append.mp member with inside | inside
        · have blank := List.mem_takeWhile_imp inside
          rw [isForeign, blank] at foreign
          cases foreign
        · exact others c (inherit foreign) inside

variable {sign : Char}

theorem span_append {test : Char → Bool} (stops : test sign = false) (text more : List Char) :
    (text ++ sign :: more).takeWhile test = text.takeWhile test ∧
      (text ++ sign :: more).dropWhile test = text.dropWhile test ++ sign :: more := by
  induction text with
  | nil => simp [stops]
  | cons c text ih => cases here : test c <;> simp [here, ih.1, ih.2]

/-- A word is found up to a character that is none of its letters. -/
theorem wordAt_append (foreign : ∀ letter ∈ word, spells letter sign = false) (text more : List Char) :
    wordAt word (text ++ sign :: more) = (wordAt word text).map fun rest => rest ++ sign :: more := by
  induction word generalizing text with
  | nil => rfl
  | cons letter word ih =>
    obtain ⟨here, others⟩ := List.forall_mem_cons.mp foreign
    cases text with
    | nil =>
      change (if spells letter sign = true then wordAt word more else none) = none
      rw [here]
      rfl
    | cons c text =>
      rw [List.cons_append, wordAt, wordAt]
      split_ifs with same
      · exact ih others text
      · rfl

theorem itemsAt_append (foreign : isForeign items sign = true) (text more : List Char) :
    itemsAt items (text ++ sign :: more) = (itemsAt items text).map fun rest => rest ++ sign :: more := by
  induction items generalizing text with
  | nil => rfl
  | cons item items ih =>
    rw [isForeign, Bool.and_eq_true, List.all_cons, Bool.and_eq_true] at foreign
    obtain ⟨unblank, here, others⟩ := foreign
    have later : isForeign items sign = true := by
      rw [isForeign, unblank, others]
      rfl
    cases item with
    | word letters =>
      rw [itemsAt, itemsAt, wordAt_append fun letter member =>
        by simpa using List.all_eq_true.mp here letter member]
      cases wordAt letters text with
      | none => rfl
      | some rest => exact ih later rest
    | blanks least =>
      have stops : isSpace sign = false := by simpa using unblank
      obtain ⟨front, back⟩ := span_append stops text more
      rw [itemsAt, itemsAt, front, back]
      split_ifs with enough
      · exact ih later _
      · rfl

theorem notMem_taken (behind : itemsAt items text = some rest) {c : Char} (foreign : isForeign items c = true) :
    c ∉ text.take (text.length - rest.length) := by
  obtain ⟨front, rfl, others⟩ := itemsAt_eq_some behind
  rw [List.length_append, Nat.add_sub_cancel, List.take_left]
  exact others c foreign

/-- Items that take something. -/
def isFirm : List Item → Bool
  | .word (_ :: _) :: _ => true
  | .blanks (_ + 1) :: _ => true
  | _ => false

theorem length_lt_of_isFirm (firm : isFirm items = true) (behind : itemsAt items text = some rest) :
    rest.length < text.length := by
  match items, firm with
  | .word (letter :: letters) :: items, _ =>
    cases text with
    | nil => cases behind
    | cons c text =>
      rw [itemsAt, wordAt] at behind
      split_ifs at behind with here
      · obtain ⟨middle, taken, later⟩ := Option.bind_eq_some_iff.mp behind
        obtain ⟨first, rfl, -⟩ := wordAt_eq_some taken
        obtain ⟨second, rfl, -⟩ := itemsAt_eq_some later
        simp only [List.length_cons, List.length_append]
        omega
      · cases behind
  | .blanks (least + 1) :: items, _ =>
    rw [itemsAt] at behind
    split_ifs at behind with enough
    obtain ⟨second, split, -⟩ := itemsAt_eq_some behind
    have whole := congrArg List.length (List.takeWhile_append_dropWhile (p := isSpace) (l := text))
    rw [List.length_append, split, List.length_append] at whole
    omega

end Expressions

/-! ## Placeholders -/

section Placeholders

variable {table : WordTable} {before : Option Char} {text put : List Char} {more : Nat} {pattern : TypePattern}

theorem foundUtcNow_eq_some (found : foundUtcNow before text = some (more, put)) :
    ∃ rest, itemsAt sqliteUtcNow text = some rest ∧ more + 1 = text.length - rest.length ∧ put = postgresUtcNow := by
  unfold foundUtcNow utcNowLength at found
  cases behind : itemsAt sqliteUtcNow text with
  | none =>
    rw [behind] at found
    cases found
  | some rest =>
    rw [behind] at found
    dsimp only at found
    split_ifs at found with some_length
    obtain ⟨rfl, rfl⟩ := Prod.mk.inj (Option.some.inj found)
    exact ⟨rest, rfl, by omega, rfl⟩

/-- A type's expression takes something, and neither takes nor puts quotes or placeholders. -/
structure TypePattern.IsSound (pattern : TypePattern) : Prop where
  firm : isFirm pattern.items = true
  foreign : ∀ c ∈ ['\'', '"', '?'], isForeign pattern.items c = true
  apart : ∀ c ∈ ['\'', '"', '?'], c ∉ pattern.replacement

theorem isSound_of_mem (member : pattern ∈ typeReplacements) : pattern.IsSound := by
  have all : (typeReplacements.all fun pattern => isFirm pattern.items &&
      ((['\'', '"', '?'].all fun c => isForeign pattern.items c) &&
        ['\'', '"', '?'].all fun c => !pattern.replacement.elem c)) = true := by decide +kernel
  have here := List.all_eq_true.mp all pattern member
  rw [Bool.and_eq_true, Bool.and_eq_true, List.all_eq_true, List.all_eq_true] at here
  exact ⟨here.1, here.2.1, fun c known inside => by simpa [inside] using here.2.2 c known⟩

theorem foundType_eq_some (sound : pattern.IsSound) (found : foundType table pattern before text = some (more, put)) :
    ∃ rest, itemsAt pattern.items text = some rest ∧ more + 1 = text.length - rest.length ∧
      put = pattern.replacement := by
  unfold foundType at found
  split_ifs at found
  cases behind : itemsAt pattern.items text with
  | none =>
    rw [behind] at found
    cases found
  | some rest =>
    have shorter := length_lt_of_isFirm sound.firm behind
    rw [behind] at found
    dsimp only at found
    split_ifs at found
    obtain ⟨rfl, rfl⟩ := Prod.mk.inj (Option.some.inj found)
    exact ⟨rest, rfl, by omega, rfl⟩

theorem utcNowLength_le (text : List Char) : utcNowLength text ≤ text.length := by
  unfold utcNowLength
  cases itemsAt sqliteUtcNow text with
  | none => exact Nat.zero_le _
  | some rest => exact Nat.sub_le _ _

theorem filter_utcNowText (sql : List Char) :
    (utcNowText sql).filter (fun c => c = '?') = sql.filter fun c => c = '?' := by
  refine filter_substitute _ (fun before text more put found => ?_) none sql
  obtain ⟨rest, behind, length, rfl⟩ := foundUtcNow_eq_some found
  have foreign : isForeign sqliteUtcNow '?' = true := by decide
  have absent : '?' ∉ postgresUtcNow := by decide +kernel
  rw [length]
  constructor
  · exact fun c member => decide_eq_false fun same => notMem_taken behind foreign (same ▸ member)
  · exact fun c member => decide_eq_false fun same => absent (same ▸ member)

theorem filter_typeText (table : WordTable) (sql : List Char) :
    (typeText table sql).filter (fun c => c = '?') = sql.filter fun c => c = '?' := by
  have general (patterns : List TypePattern) (sound : ∀ pattern ∈ patterns, pattern.IsSound) (sql : List Char) :
      ((patterns.map (foundType table)).foldl (fun text finding => substitute finding none text) sql).filter
        (fun c => c = '?') = sql.filter fun c => c = '?' := by
    induction patterns generalizing sql with
    | nil => rfl
    | cons pattern patterns ih =>
      obtain ⟨here, others⟩ := List.forall_mem_cons.mp sound
      rw [List.map_cons, List.foldl_cons, ih others]
      refine filter_substitute _ (fun before text more put found => ?_) none sql
      obtain ⟨rest, behind, length, rfl⟩ := foundType_eq_some here found
      rw [length]
      constructor
      · exact fun c member => decide_eq_false fun same =>
          notMem_taken behind (here.foreign '?' (by simp)) (same ▸ member)
      · exact fun c member => decide_eq_false fun same => here.apart '?' (by simp) (same ▸ member)
  exact general typeReplacements (fun pattern member => isSound_of_mem member) sql

end Placeholders

/-! ## Texts in quotes -/

section Quotes

variable {table : WordTable} {pattern : TypePattern} {text : List Char}

/-- The name of the present moment is begun in a text. -/
def mentionsUtcNow (text : List Char) : Bool :=
  text.tails.any fun tail => (wordAt strftime tail).isSome

theorem isBare_of_not_mentioned (unsaid : mentionsUtcNow text = false) : IsBare utcNowLength text := by
  intro rest ends c tail suffix
  have alone : wordAt strftime (c :: tail) = none := by
    rw [mentionsUtcNow, List.any_eq_false] at unsaid
    simpa using unsaid _ ((List.mem_tails _ _).mpr suffix)
  have absent : wordAt strftime (c :: tail ++ rest) = none := by
    rcases ends with rfl | ⟨inner, sign, quote, rfl⟩
    · rw [List.append_nil]
      exact alone
    · obtain ⟨front, split⟩ := suffix
      have foreign : ∀ letter ∈ strftime, spells letter sign = false := by
        have all : (strftime.all fun letter => !spells letter sign) = true := by
          rw [isQuote, Bool.or_eq_true, decide_eq_true_eq, decide_eq_true_eq] at quote
          rcases quote with rfl | rfl <;> decide
        exact fun letter member => by simpa using List.all_eq_true.mp all letter member
      obtain ⟨body, closed⟩ : ∃ body, c :: tail = body ++ [sign] := by
        rcases List.eq_nil_or_concat' (c :: tail) with none | ⟨body, last, closed⟩
        · cases none
        · have same := congrArg List.getLast? split
          rw [closed, ← List.append_assoc, List.getLast?_concat, List.getLast?_concat] at same
          exact ⟨body, by rw [closed, Option.some.inj same]⟩
      rw [closed, wordAt_append foreign, Option.map_eq_none_iff] at alone
      rw [closed, List.append_assoc, List.singleton_append, wordAt_append foreign, alone]
      rfl
  rw [utcNowLength, sqliteUtcNow, itemsAt, absent]
  rfl

theorem endsWord_append {sign : Char} (quote : isQuote sign = true) (text more : List Char) :
    endsWord table (text ++ sign :: more) = endsWord table text := by
  cases text with
  | nil =>
    rw [endsWord, endsWord]
    simp [table.quotes sign quote]
  | cons c text => rfl

theorem isLocal_foundType (sound : pattern.IsSound) : IsLocal (foundType table pattern) where
  behind_quote sign quote text := by
    unfold foundType
    rw [Option.any_some, table.quotes sign quote, Option.any_none]
  before_quote before text sign rest quote bare := by
    have foreign : isForeign pattern.items sign = true := by
      refine sound.foreign sign ?_
      rw [isQuote, Bool.or_eq_true, decide_eq_true_eq, decide_eq_true_eq] at quote
      rcases quote with rfl | rfl <;> decide
    unfold foundType
    rw [itemsAt_append foreign]
    cases itemsAt pattern.items text with
    | none => rfl
    | some behind =>
      have length : (text ++ sign :: rest).length - (behind ++ sign :: rest).length =
        text.length - behind.length := by
        rw [List.length_append, List.length_append]
        omega
      dsimp only [Option.map_some]
      rw [endsWord_append quote, length]
  nothing before := by
    unfold foundType
    cases behind : itemsAt pattern.items [] with
    | none =>
      dsimp only
      split_ifs <;> rfl
    | some rest => exact absurd (length_lt_of_isFirm sound.firm behind) (Nat.not_lt_zero _)
  within before text more put found := by
    obtain ⟨rest, behind, length, rfl⟩ := foundType_eq_some sound found
    refine ⟨by omega, fun c member => ?_⟩
    by_contra quote
    rw [Bool.not_eq_false, isQuote, Bool.or_eq_true, decide_eq_true_eq, decide_eq_true_eq] at quote
    rcases quote with rfl | rfl
    · exact sound.apart _ (by decide) member
    · exact sound.apart _ (by decide) member

end Quotes

/-! ## Cuts of a script -/

/-- A semicolon or a comment at the front of a text. -/
def splitMark (text : List Char) : Nat :=
  if text.head? = some ';' then 1
  else if ['-', '-'] <+: text then (text.takeWhile fun c => c ≠ '\n').length
  else 0

/-- The statements of a script: its tokens cut at the semicolons, without the comments. -/
def cut (tokens : List Token) : List (List Char) :=
  (tokens.splitOn (.special [';'])).map fun part => part.flatMap (replaced [])

section Cuts

variable {tokens : List Token}

theorem splitMark_le (text : List Char) : splitMark text ≤ text.length := by
  unfold splitMark
  split_ifs with semicolon comment
  · cases text with
    | nil => cases semicolon
    | cons c text => simp
  · exact (List.takeWhile_prefix _).length_le
  · exact Nat.zero_le _

variable {rest : List Char}

theorem splitFrom_quote {sign : Char} {body : List Char} (closed : quotedLength sign (body ++ rest) = body.length)
    (buffer : List Char) : splitFrom (.quote sign) buffer (body ++ rest) = splitFrom .code (buffer ++ body) rest := by
  generalize whole : body ++ rest = text at closed
  fun_induction quotedLength sign text generalizing body buffer with
  | case1 =>
    obtain ⟨rfl, rfl⟩ := List.append_eq_nil_iff.mp whole
    rw [List.append_nil]
    rfl
  | case2 c =>
    obtain ⟨d, rfl⟩ := List.length_eq_one_iff.mp closed.symm
    obtain ⟨rfl, rfl⟩ := List.cons.inj whole
    rw [splitFrom, splitFrom]
    split_ifs with same doubled
    · cases doubled.2
    · rfl
    · rfl
  | case3 d more doubled ih =>
    obtain ⟨rfl, rfl⟩ := doubled
    obtain ⟨first, second, inside, rfl⟩ : ∃ first second inside, body = first :: second :: inside := by
      rcases body with _ | ⟨first, _ | ⟨second, inside⟩⟩
      · cases closed
      · cases closed
      · exact ⟨first, second, inside, rfl⟩
    obtain ⟨rfl, later⟩ := List.cons.inj whole
    obtain ⟨rfl, last⟩ := List.cons.inj later
    have inner := ih (buffer ++ ['\'', '\'']) last (by simpa using closed)
    rw [splitFrom, if_pos rfl, if_pos ⟨rfl, rfl⟩, splitFrom, List.append_assoc]
    refine inner.trans ?_
    rw [List.append_assoc]
    rfl
  | case4 d more single =>
    obtain ⟨first, rfl⟩ := List.length_eq_one_iff.mp closed.symm
    obtain ⟨rfl, rfl⟩ := List.cons.inj whole
    rw [splitFrom, if_pos rfl, if_neg fun both => single ⟨both.1, Option.some.inj both.2⟩]
  | case5 c d more other ih =>
    cases body with
    | nil => cases closed
    | cons first inside =>
      obtain ⟨rfl, later⟩ := List.cons.inj whole
      have inner := ih (buffer ++ [first]) later (by simpa using closed)
      rw [splitFrom, if_neg other, inner, List.append_assoc]
      rfl

theorem splitFrom_comment {text : List Char} (line : '\n' ∉ text) (ends : rest = [] ∨ ∃ more, rest = '\n' :: more)
    (buffer : List Char) : splitFrom .comment buffer (text ++ rest) = splitFrom .code buffer rest := by
  induction text with
  | nil =>
    rcases ends with rfl | ⟨more, rfl⟩
    · rfl
    · rw [List.nil_append, splitFrom, if_pos rfl, splitFrom, if_neg (by decide),
        if_neg fun both => absurd both.1 (by decide), if_neg (by decide)]
  | cons c text ih =>
    obtain ⟨other, later⟩ := not_or.mp (List.mem_cons.not.mp line)
    rw [List.cons_append, splitFrom, if_neg (Ne.symm other), ih later]

theorem cut_cons (token : Token) (apart : token ≠ .special [';']) (tokens : List Token) :
    cut (token :: tokens) = (cut tokens).modifyHead fun first => replaced [] token ++ first := by
  obtain ⟨part, parts, split⟩ := List.exists_cons_of_ne_nil (List.splitOn_ne_nil (.special [';']) tokens)
  rw [cut, cut, List.splitOn_cons_eq_if_modifyHead, if_neg (by simpa using apart), split]
  rfl

theorem splitMark_eq_zero {c : Char} (plain : splitMark (c :: rest) = 0) :
    c ≠ ';' ∧ ¬ (c = '-' ∧ rest.head? = some '-') := by
  unfold splitMark at plain
  split_ifs at plain with semicolon comment
  · obtain ⟨more, whole⟩ := comment
    obtain ⟨rfl, -⟩ := List.cons.inj whole
    simp at plain
  · refine ⟨fun same => semicolon (congrArg some same), ?_⟩
    rintro ⟨rfl, second⟩
    cases rest with
    | nil => cases second
    | cons d rest =>
      cases second
      exact comment ⟨rest, rfl⟩

/-- What is marked is a semicolon, or a comment up to the line's end. -/
theorem splitMark_eq_length {text : List Char} (stated : text ≠ []) (found : splitMark (text ++ rest) =
    text.length) :
    text = [';'] ∨ (∃ more, text = '-' :: '-' :: more ∧ '\n' ∉ more) ∧ (rest = [] ∨ ∃ more, rest = '\n' :: more) := by
  have some_length := List.length_pos_iff.mpr stated
  unfold splitMark at found
  split_ifs at found with semicolon comment
  · obtain ⟨c, rfl⟩ := List.length_eq_one_iff.mp found.symm
    exact Or.inl (by rw [Option.some.inj semicolon])
  · have whole := List.takeWhile_append_dropWhile (p := fun c => decide (c ≠ '\n')) (l := text ++ rest)
    obtain ⟨same, left⟩ := List.append_inj whole found
    have line : '\n' ∉ text := by
      rw [← same]
      intro member
      simpa using List.mem_takeWhile_imp member
    have first : ['-', '-'] <+: text := by
      rw [← same]
      obtain ⟨more, spelled⟩ := comment
      rw [← spelled]
      exact ⟨_, rfl⟩
    obtain ⟨more, rfl⟩ := first
    refine Or.inr ⟨⟨more, rfl, fun member => line (by simp [member])⟩, ?_⟩
    cases rest with
    | nil => exact Or.inl rfl
    | cons c rest =>
      have stop := List.head?_dropWhile_not (fun c => decide (c ≠ '\n')) (['-', '-'] ++ more ++ c :: rest)
      rw [left] at stop
      have newline : c = '\n' := by simpa using stop
      exact Or.inr ⟨rest, by rw [newline]⟩
  · omega

theorem splitFrom_render (lexed : Lexed splitMark tokens) (buffer : List Char) :
    splitFrom .code buffer (render tokens) = (cut tokens).modifyHead fun first => buffer ++ first := by
  induction lexed generalizing buffer with
  | nil =>
    change [buffer] = [buffer ++ []]
    rw [List.append_nil]
  | @code c tokens plain bare later ih =>
    change splitFrom .code buffer (c :: render tokens) = _
    have unmarked := splitMark_eq_zero plain
    rw [splitFrom, if_neg (by simp [bare]), if_neg unmarked.2, if_neg unmarked.1, ih, cut_cons _ (by simp)]
    cases cut tokens with
    | nil => rfl
    | cons first others => simp [replaced]
  | @quoted sign body tokens plain opens closed later ih =>
    change splitFrom .code buffer (sign :: (body ++ render tokens)) = _
    rw [splitFrom, if_pos opens, splitFrom_quote closed, ih, cut_cons _ (by simp)]
    cases cut tokens with
    | nil => rfl
    | cons first others => simp [replaced]
  | @special text tokens stated found later ih =>
    change splitFrom .code buffer (text ++ render tokens) = _
    rcases splitMark_eq_length stated found with rfl | ⟨⟨more, rfl, line⟩, ends⟩
    · rw [List.singleton_append, splitFrom, if_neg (by decide), if_neg fun both => absurd both.1 (by decide),
        if_pos rfl, ih]
      have fresh : cut (.special [';'] :: tokens) = [] :: cut tokens := by
        rw [cut, List.splitOn_cons_eq_if_modifyHead, if_pos (by simp)]
        rfl
      rw [fresh, List.modifyHead_cons, List.append_nil]
      congr 1
      cases cut tokens <;> rfl
    · rw [List.cons_append, splitFrom, if_neg (by decide), if_pos ⟨rfl, rfl⟩, List.cons_append, ← List.cons_append,
        splitFrom_comment (by simp [line]) ends, ih, cut_cons _ (by simp)]
      cases cut tokens <;> rfl

end Cuts

/-! ## What is kept -/

/-- A statement keeps its placeholders.  Where no text in quotes begins the name of the present moment, that name is
replaced where it stands outside of quotes, and nothing else is but the type names of a declaration; where no text in
quotes has one, these are replaced stretch by stretch between the quotes.  A script is cut at the semicolons outside of
quotes and comments, and its statements are the pieces without their comments and the blanks around them. -/
theorem quotes_are_kept (table : WordTable) {sql translated : List Char} (other : tableInfo sql = none)
    (sent : translateStatement table sql = some translated) (script : List Char) :
    translated.filter (fun c => c = '?') = sql.filter (fun c => c = '?') ∧
      render (lex utcNowLength sql) = sql ∧
      ((∀ text, Token.quoted text ∈ lex utcNowLength sql → mentionsUtcNow text = false) →
        let text := (lex utcNowLength sql).flatMap (replaced postgresUtcNow)
        let parts := stretches (lex (fun _ => 0) text)
        join parts.1 parts.2 = text ∧ (isDdl table text = false → translated = text) ∧
          (isDdl table text = true →
            (∀ pattern ∈ typeReplacements, ∀ part ∈ parts.2, IsClear (foundType table pattern) part.1) →
              translated = join (typeText table parts.1) (mapStretches (typeText table) parts.2))) ∧
      render (lex splitMark script) = script ∧
      splitStatements script =
        ((cut (lex splitMark script)).filter fun item => !item.all isSpace).map stripChars := by
  obtain ⟨spelled, lexed⟩ := lex_lexed utcNowLength_le sql
  obtain ⟨script_spelled, script_lexed⟩ := lex_lexed splitMark_le script
  have told : translated = if isDdl table (utcNowText sql) then typeText table (utcNowText sql)
    else utcNowText sql := by
    unfold translateStatement at sent
    rw [other] at sent
    dsimp only at sent
    split_ifs at sent with blank pragma declares
    · rw [if_pos declares]
      exact (Option.some.inj sent).symm
    · rw [if_neg declares]
      exact (Option.some.inj sent).symm
  refine ⟨?_, spelled, fun unsaid => ?_, script_spelled, ?_⟩
  · rw [told]
    split_ifs
    · rw [filter_typeText, filter_utcNowText]
    · exact filter_utcNowText sql
  · have moment : utcNowText sql = (lex utcNowLength sql).flatMap (replaced postgresUtcNow) := by
      have through := @substitute_render utcNowLength foundUtcNow postgresUtcNow _ lexed (fun _ _ => rfl)
        (fun text member => isBare_of_not_mentioned (unsaid text member)) none
      rwa [spelled] at through
    rw [← moment]
    dsimp only
    obtain ⟨whole, tokens⟩ := lex_lexed (fun text : List Char => Nat.zero_le text.length) (utcNowText sql)
    obtain ⟨bare, parted⟩ := parted_stretches tokens
    have parts := join_stretches (lex (fun _ => 0) (utcNowText sql))
    rw [whole] at parts
    refine ⟨parts, fun query => ?_, fun declares clear => ?_⟩
    · rw [told, query]
      rfl
    · rw [told, if_pos declares]
      conv_lhs => rw [← parts]
      refine foldl_substitute_join (fun finding member => ?_) bare parted fun finding member part inside => ?_
      · obtain ⟨pattern, known, rfl⟩ := List.mem_map.mp member
        exact isLocal_foundType (isSound_of_mem known)
      · obtain ⟨pattern, known, rfl⟩ := List.mem_map.mp member
        exact clear pattern known part inside
  · have pieces := splitFrom_render script_lexed []
    rw [script_spelled] at pieces
    rw [splitStatements, pieces]
    congr 2
    cases cut (lex splitMark script) <;> rfl

/-- ASCII letters, digits and the underscore. -/
def asciiWords : WordTable where
  isWord c := c.isAlphanum || c = '_'
  quotes c quote := by
    rw [isQuote, Bool.or_eq_true, decide_eq_true_eq, decide_eq_true_eq] at quote
    rcases quote with rfl | rfl <;> decide

def addColumn : List Char := "ALTER TABLE t ADD c REAL DEFAULT 'a?;'".toList

def addedColumn : List Char := "ALTER TABLE t ADD c DOUBLE PRECISION DEFAULT 'a?;'".toList

theorem lex_addColumn : lex utcNowLength addColumn =
    "ALTER TABLE t ADD c REAL DEFAULT ".toList.map Token.code ++ [.quoted "'a?;'".toList] := by decide +kernel

def quotedScript : List Char := "INSERT INTO t VALUES ('a;b'); -- c; d\nDROP TABLE t".toList

/-- A declaration keeps its literal, and a script is not cut in its quotes or its comment. -/
theorem literal_of_declaration_is_kept :
    addedColumn.filter (fun c => c = '?') = addColumn.filter (fun c => c = '?') ∧
      addedColumn = join (typeText asciiWords "ALTER TABLE t ADD c REAL DEFAULT ".toList) [("'a?;'".toList, [])] ∧
      splitStatements quotedScript = ["INSERT INTO t VALUES ('a;b')".toList, "DROP TABLE t".toList] := by
  obtain ⟨placeholders, -, kept, -, pieces⟩ :=
    @quotes_are_kept asciiWords addColumn addedColumn (by decide +kernel) (by decide +kernel) quotedScript
  refine ⟨placeholders, ?_, pieces.trans (by decide +kernel)⟩
  have unsaid : ∀ text, Token.quoted text ∈ lex utcNowLength addColumn → mentionsUtcNow text = false := by
    intro text member
    rw [lex_addColumn] at member
    rcases List.mem_append.mp member with code | literal
    · obtain ⟨c, -, same⟩ := List.mem_map.mp code
      cases same
    · rw [Token.quoted.inj (List.mem_singleton.mp literal)]
      decide +kernel
  exact ((kept unsaid).2.2 (by decide +kernel) (by decide +kernel)).trans (by decide +kernel)

/-- No placeholder is put for another, and a script's semicolons are in none of its statements. -/
theorem statement_is_sent_as_it_is : translateStatement asciiWords ['?'] = some ['?'] ∧
    (splitStatements ['A', ';', 'B']).flatten ≠ ['A', ';', 'B'] := by decide +kernel

end DbaBrain.Db.StatementTranslation
