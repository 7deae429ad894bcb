import DbaBrain.Foundation.Scan
import DbaBrain.Foundation.Text

/-!
# The two readings of a PostgreSQL text

`split_postgresql_statements` and `_code_pieces` each read a script for its
strings, quoted names, dollar quotes and comments; the second tells
`bind_named_values` where a `:name` is a placeholder.  They read alike except in
three places: a comment in a comment, which only the split nests, and a `#`
before a dollar quote or before an escape string's prefix, which only the pieces
take for part of a word.
-/

namespace DbaBrain.Lib.PostgresLexers

open DbaBrain.Foundation DbaBrain.Foundation.Scan

inductive Kind
  | code
  | comment
  | quoted
  deriving DecidableEq

/-! ## Parts of a token -/

/-- The consumed part of a nested comment, behind an opening at some depth. -/
def nested : Nat → List Char → List Char
  | 0, _ => []
  | _ + 1, [] => []
  | depth + 1, '/' :: '*' :: rest => '/' :: '*' :: nested (depth + 2) rest
  | depth + 1, '*' :: '/' :: rest => '*' :: '/' :: nested depth rest
  | depth + 1, c :: rest => c :: nested (depth + 1) rest

/-- The consumed part of a quoted text, behind its opening quote. -/
def body (quote : Char) (backslash : Bool) : List Char → List Char
  | [] => []
  | c :: rest =>
      if backslash && c = '\\' then
        match rest with
        | [] => [c]
        | d :: more => c :: d :: body quote backslash more
      else if c = quote then
        match rest with
        | [] => [c]
        | d :: more => if d = quote then c :: d :: body quote backslash more else [c]
      else c :: body quote backslash rest

def isNameStart (c : Char) : Bool := ('A' ≤ c ∧ c ≤ 'Z') ∨ ('a' ≤ c ∧ c ≤ 'z') ∨ c = '_'

def isNameChar (c : Char) : Bool := isNameStart c ∨ ('0' ≤ c ∧ c ≤ '9')

/-- `_DOLLAR_TAG_RE`, behind its first dollar. -/
def dollarTag (rest : List Char) : Option (List Char) :=
  let name := rest.takeWhile isNameChar
  if (rest.drop name.length).head? = some '$' ∧ ∀ c ∈ name.head?, isNameStart c = true then some ('$' :: name ++ ['$'])
  else none

/-- What `_word_before` asks of the character before a place. -/
def wordBefore (word : Char → Bool) (before : List Char) : Bool := before.head?.any word

/-- The character before is an `e` that begins no longer word: what follows is an escape string. -/
def escapes (word : Char → Bool) : List Char → Bool
  | [] => false
  | e :: before => (e = 'e' || e = 'E') && !wordBefore word before

/-- The tag's text and all up to its next occurrence. -/
def dollarQuote (tag rest : List Char) : List Char := tag ++ through tag (rest.drop tag.length)

def tagAt (rest : List Char) : Option (List Char) := if rest.head? = some '$' then dollarTag rest.tail else none

def qQuoteClose (opening : Char) : List Char :=
  [match opening with
    | '[' => ']'
    | '(' => ')'
    | '{' => '}'
    | '<' => '>'
    | other => other, '\'']

/-- Oracle's `q'[...]'`, where it opens: behind no word, or behind the prefix `n` of one. -/
def qQuote (word : Char → Bool) (before rest : List Char) : Option (List Char) :=
  match rest with
  | q :: '\'' :: opening :: more =>
      if (q = 'q' ∨ q = 'Q') ∧ (wordBefore word before = false ∨
          (before.head? = some 'n' ∨ before.head? = some 'N') ∧ wordBefore word before.tail = false) then
        some (q :: '\'' :: opening :: through (qQuoteClose opening) more)
      else none
  | _ => none

variable (isAlnum : Char → Bool)

/-! ## `_code_pieces` -/

def piecesWord (c : Char) : Bool := isAlnum c || c = '_' || c = '$' || c = '#'

def readPiece (engine : String) (before rest : List Char) : Kind × List Char :=
  if ['-', '-'] <+: rest then (.comment, rest.takeWhile fun c => c ≠ '\n')
  else if ['/', '*'] <+: rest then (.comment, ['/', '*'] ++ through ['*', '/'] (rest.drop 2))
  else
    match if engine = "oracle" then qQuote (piecesWord isAlnum) before rest else none with
    | some text => (.quoted, text)
    | none =>
        if rest.head? = some '\'' then
          (.quoted, '\'' :: body '\'' (engine = "postgresql" && escapes (piecesWord isAlnum) before) rest.tail)
        else if rest.head? = some '"' then (.quoted, '"' :: body '"' false rest.tail)
        else
          match if engine = "postgresql" ∧ wordBefore (piecesWord isAlnum) before = false then tagAt rest else none with
          | some tag => (.quoted, dollarQuote tag rest)
          | none => (.code, rest.take 1)

/-! ## `split_postgresql_statements` -/

def splitWord (c : Char) : Bool := isAlnum c || c = '_' || c = '$'

def readSplit (before rest : List Char) : Kind × List Char :=
  if ['-', '-'] <+: rest then (.comment, rest.takeWhile fun c => c ≠ '\n')
  else if ['/', '*'] <+: rest then (.comment, ['/', '*'] ++ nested 1 (rest.drop 2))
  else if rest.head? = some '\'' then (.quoted, '\'' :: body '\'' (escapes (splitWord isAlnum) before) rest.tail)
  else if rest.head? = some '"' then (.quoted, '"' :: body '"' false rest.tail)
  else
    match if wordBefore (splitWord isAlnum) before = false then tagAt rest else none with
    | some tag => (.quoted, dollarQuote tag rest)
    | none => (.code, rest.take 1)

/-! ## Both are scanners -/

theorem nested_front (depth : Nat) (rest : List Char) : nested depth rest <+: rest := by
  fun_induction nested depth rest with
  | case1 => exact List.nil_prefix
  | case2 => exact List.prefix_rfl
  | case3 depth rest ih => simpa using ih
  | case4 depth rest ih => simpa using ih
  | case5 depth c rest _ _ ih => simpa using ih

theorem body_front (quote : Char) (backslash : Bool) (rest : List Char) : body quote backslash rest <+: rest := by
  fun_induction body quote backslash rest with
  | case1 => exact List.prefix_rfl
  | case2 => simp
  | case3 => simpa
  | case4 => simp
  | case5 => simpa
  | case6 => simp
  | case7 => simpa

variable {rest tag text before : List Char}

theorem dollarTag_front (found : dollarTag rest = some tag) : tag <+: '$' :: rest := by
  unfold dollarTag at found
  dsimp only at found
  split at found
  · rename_i closes
    cases found
    obtain ⟨more, behind⟩ := List.head?_eq_some_iff.mp closes.1
    refine ⟨more, ?_⟩
    have whole := List.prefix_append_drop (List.takeWhile_prefix isNameChar (l := rest))
    rw [behind] at whole
    conv_rhs => rw [whole]
    simp
  · cases found

theorem cons_front_of_head {c : Char} (head : rest.head? = some c) (inner : text <+: rest.tail) :
    c :: text <+: rest := by
  obtain ⟨more, rfl⟩ := List.head?_eq_some_iff.mp head
  simpa using inner

theorem append_front_of_front {opening : List Char} (opens : opening <+: rest)
    (inner : text <+: rest.drop opening.length) : opening ++ text <+: rest := by
  obtain ⟨more, rfl⟩ := opens
  rw [List.drop_left] at inner
  exact (List.prefix_append_right_inj opening).mpr inner

theorem tagAt_front (found : tagAt rest = some tag) : tag <+: rest ∧ tag ≠ [] := by
  unfold tagAt at found
  split at found
  · rename_i dollar
    obtain ⟨more, rfl⟩ := List.head?_eq_some_iff.mp dollar
    refine ⟨dollarTag_front found, ?_⟩
    unfold dollarTag at found
    dsimp only at found
    split at found
    · cases found
      exact List.cons_ne_nil _ _
    · cases found
  · cases found

theorem qQuote_front {word : Char → Bool} (found : qQuote word before rest = some text) :
    text <+: rest ∧ text ≠ [] := by
  unfold qQuote at found
  split at found
  · split at found
    · cases found
      simp [through_front]
    · cases found
  · cases found

theorem dollarQuote_front (opens : tag <+: rest) : dollarQuote tag rest <+: rest :=
  append_front_of_front opens (through_front _ _)

theorem takeWhile_ne_nil (opens : ['-', '-'] <+: rest) : (rest.takeWhile fun c => c ≠ '\n') ≠ [] := by
  obtain ⟨more, rfl⟩ := opens
  simp

def pieces (engine : String) : Scanner Char Kind where
  read := readPiece isAlnum engine
  front before rest := by
    unfold readPiece
    split
    · exact List.takeWhile_prefix _
    · split
      · rename_i opens
        exact append_front_of_front opens (through_front _ _)
      · split
        · rename_i found
          split at found
          · exact (qQuote_front found).1
          · cases found
        · split
          · rename_i quote
            exact cons_front_of_head quote (body_front _ _ _)
          · split
            · rename_i quote
              exact cons_front_of_head quote (body_front _ _ _)
            · split
              · rename_i found
                split at found
                · exact dollarQuote_front (tagAt_front found).1
                · cases found
              · exact List.take_prefix 1 rest
  moves before rest more := by
    unfold readPiece
    split
    · rename_i opens
      exact takeWhile_ne_nil opens
    · split
      · simp
      · split
        · rename_i found
          split at found
          · exact (qQuote_front found).2
          · cases found
        · split
          · simp
          · split
            · simp
            · split
              · rename_i found
                split at found
                · simp [dollarQuote, (tagAt_front found).2]
                · cases found
              · simpa using more

def split : Scanner Char Kind where
  read := readSplit isAlnum
  front before rest := by
    unfold readSplit
    split
    · exact List.takeWhile_prefix _
    · split
      · rename_i opens
        exact append_front_of_front opens (nested_front _ _)
      · split
        · rename_i quote
          exact cons_front_of_head quote (body_front _ _ _)
        · split
          · rename_i quote
            exact cons_front_of_head quote (body_front _ _ _)
          · split
            · rename_i found
              split at found
              · exact dollarQuote_front (tagAt_front found).1
              · cases found
            · exact List.take_prefix 1 rest
  moves before rest more := by
    unfold readSplit
    split
    · rename_i opens
      exact takeWhile_ne_nil opens
    · split
      · simp
      · split
        · simp
        · split
          · simp
          · split
            · rename_i found
              split at found
              · simp [dollarQuote, (tagAt_front found).2]
              · cases found
            · simpa using more

/-! ## Named values -/

/-- Pieces of code that follow one another are one. -/
def merged : List (Kind × List Char) → List (Kind × List Char)
  | [] => []
  | (.code, text) :: rest =>
      match merged rest with
      | (.code, more) :: others => (.code, text ++ more) :: others
      | others => (.code, text) :: others
  | token :: rest => token :: merged rest

def codePieces (engine : String) (text : List Char) : List (Kind × List Char) :=
  merged ((pieces isAlnum engine).tokens text)

def bindNameChar (c : Char) : Bool := isNameChar c || c = '$' || c = '#'

/-- `_NAMED_BIND_RE` at a place: the name it finds, with its colon, or one character. -/
def readName (before rest : List Char) : Option String × List Char :=
  match rest with
  | ':' :: first :: more =>
      if isNameStart first ∧ wordBefore (fun c => piecesWord isAlnum c || c = ':') before = false then
        let name := first :: more.takeWhile bindNameChar
        (some (String.ofList (name.map Char.toLower)), ':' :: name)
      else (none, [':'])
  | _ => (none, rest.take 1)

def names : Scanner Char (Option String) where
  read := readName isAlnum
  front before rest := by
    unfold readName
    split
    · split
      · simp [List.takeWhile_prefix]
      · simp
    · exact List.take_prefix 1 rest
  moves before rest more := by
    unfold readName
    split
    · split
      · simp
      · simp
    · simpa using more

/-- A part of a statement: what it is read as, the wanted name it says, and its text. -/
structure Part where
  kind : Kind
  name : Option String
  text : List Char

def partsOf (wanted : String → Bool) (piece : Kind × List Char) : List Part :=
  if piece.1 = .code then
    ((names isAlnum).tokens piece.2).map fun token => ⟨.code, token.1.filter wanted, token.2⟩
  else [⟨piece.1, none, piece.2⟩]

def parts (engine : String) (wanted : String → Bool) (text : List Char) : List Part :=
  (codePieces isAlnum engine text).flatMap (partsOf isAlnum wanted)

/-- The text so far, the names that are numbered, and the values bound. -/
structure Binding (V : Type) where
  text : List Char
  numbered : List String
  bound : List V

/-- `chunk.replace("%", "%%")`. -/
def doubled (text : List Char) : List Char := text.flatMap fun c => if c = '%' then ['%', '%'] else [c]

def Binding.write {V : Type} (engine style : String) (values : List (String × V)) (state : Binding V) (part : Part) :
    Binding V :=
  match part.name.bind fun name => (values.lookup name).map fun value => (name, value) with
  | none =>
      { state with text := state.text ++ if style = "format" ∧ part.kind ≠ .quoted then doubled part.text else part.text }
  | some (name, value) =>
      if engine = "postgresql" then
        let fresh := name ∉ state.numbered
        let numbered := if fresh then state.numbered ++ [name] else state.numbered
        { text := state.text ++ ('$' :: (toString (numbered.idxOf name + 1)).toList)
          numbered := numbered
          bound := if fresh then state.bound ++ [value] else state.bound }
      else
        { state with
          text := state.text ++ (':' :: (toString (state.bound.length + 1)).toList)
          bound := state.bound ++ [value] }

def namedStyles : List (String × String) := [("oracle", "numeric"), ("postgresql", "format"), ("postgresql", "qmark")]

def wrongStyle (engine style : String) : String :=
  "the " ++ engine ++ " driver in this process reads placeholders in the '" ++ style ++
    "' style, which named values are not written in."

def questionMark : String :=
  "this statement has a '?' outside a string, which the driver in this process reads as a placeholder; it cannot also " ++
    "bind :name values. Write the value into the script."

local instance stylesLawful : LawfulBEq (String × String) := inferInstance

def bindNamedValues {V : Type} (engine style : String) (values : List (String × V)) (statement : List Char) :
    Except String (List Char × List V) :=
  let found := parts isAlnum engine (fun name => (values.lookup name).isSome) statement
  if !found.any fun part => part.name.isSome then .ok (statement, [])
  else if (engine, style) ∉ namedStyles then .error (wrongStyle engine style)
  else if style = "qmark" ∧ (codePieces isAlnum engine statement).any (fun piece =>
      piece.1 ≠ .quoted && '?' ∈ piece.2 && !(['-', '-'].isPrefixOf piece.2)) then .error questionMark
  else
    let done := found.foldl (Binding.write engine style values) ⟨[], [], []⟩
    .ok (done.text, done.bound)

/-! ## Where they read alike -/

variable {isAlnum}

theorem nested_one_eq_through (single : ¬ ['/', '*'] <:+: through ['*', '/'] rest) :
    nested 1 rest = through ['*', '/'] rest := by
  induction rest with
  | nil => rfl
  | cons c rest ih =>
    rw [through] at single ⊢
    by_cases closes : ['*', '/'] <+: c :: rest
    · obtain ⟨more, spelled⟩ := closes
      rw [if_pos ⟨more, spelled⟩, ← spelled]
      simp [nested]
    · rw [if_neg closes] at single ⊢
      have opens : ¬ ['/', '*'] <+: c :: rest := by
        rintro ⟨more, spelled⟩
        obtain ⟨rfl, rfl⟩ := List.cons.inj spelled
        refine single (List.IsPrefix.isInfix ?_)
        rw [List.prefix_cons_inj]
        change ['*'] <+: through ['*', '/'] ('*' :: more)
        rw [through]
        split
        · exact ⟨['/'], rfl⟩
        · exact ⟨_, rfl⟩
      rw [nested, ih fun inner => single (inner.trans (List.suffix_cons c _).isInfix)]
      · rintro more rfl rfl
        exact opens ⟨more, rfl⟩
      · rintro more rfl rfl
        exact closes ⟨more, rfl⟩

/-- What both lexers read in the same way at a place of the text. -/
structure ReadAlike (before rest : List Char) : Prop where
  comment : ['/', '*'] <+: rest → nested 1 (rest.drop 2) = through ['*', '/'] (rest.drop 2)
  string : rest.head? = some '\'' → before.head? = some 'e' ∨ before.head? = some 'E' →
    before.tail.head? = some '#' → body '\'' true rest.tail = body '\'' false rest.tail
  dollar : before.head? = some '#' → tagAt rest = none

theorem wordBefore_eq (other : before.head? ≠ some '#') :
    wordBefore (splitWord isAlnum) before = wordBefore (piecesWord isAlnum) before := by
  cases before with
  | nil => rfl
  | cons c before =>
    have plain : c ≠ '#' := fun same => other (congrArg some same)
    simp [wordBefore, splitWord, piecesWord, plain]

theorem ReadAlike.body_eq (alike : ReadAlike before rest) (quote : rest.head? = some '\'') :
    body '\'' (escapes (splitWord isAlnum) before) rest.tail = body '\'' (escapes (piecesWord isAlnum) before) rest.tail := by
  cases before with
  | nil => rfl
  | cons e before =>
    by_cases prefixed : e = 'e' ∨ e = 'E'
    · by_cases hash : before.head? = some '#'
      · have either := alike.string quote (prefixed.imp (congrArg some) (congrArg some)) hash
        cases escapes (splitWord isAlnum) (e :: before) <;> cases escapes (piecesWord isAlnum) (e :: before) <;>
          simp [either]
      · rw [escapes, escapes, wordBefore_eq hash]
    · rw [not_or] at prefixed
      simp [escapes, prefixed]

theorem ReadAlike.tag_eq (alike : ReadAlike before rest) :
    (if wordBefore (splitWord isAlnum) before = false then tagAt rest else none) =
      if wordBefore (piecesWord isAlnum) before = false then tagAt rest else none := by
  by_cases hash : before.head? = some '#'
  · rw [alike.dollar hash, ite_self, ite_self]
  · rw [wordBefore_eq hash]

theorem ReadAlike.read_eq (alike : ReadAlike before rest) :
    readSplit isAlnum before rest = readPiece isAlnum "postgresql" before rest := by
  unfold readSplit readPiece
  rw [if_neg (by decide : ¬ ("postgresql" : String) = "oracle")]
  simp only [decide_true, Bool.true_and, true_and]
  by_cases opens : ['/', '*'] <+: rest
  · rw [if_pos opens, if_pos opens, alike.comment opens]
  · by_cases quote : rest.head? = some '\''
    · rw [if_neg opens, if_neg opens, if_pos quote, if_pos quote, alike.body_eq quote]
    · rw [if_neg opens, if_neg opens, if_neg quote, if_neg quote, alike.tag_eq]

/-- At every place the split stops at, both read alike. -/
def Alike (isAlnum : Char → Bool) (text : List Char) : Prop :=
  ∀ before rest, (split isAlnum).Stops text before rest → ReadAlike before rest

theorem Alike.tokens_eq (alike : Alike isAlnum text) :
    (split isAlnum).tokens text = (pieces isAlnum "postgresql").tokens text :=
  Scanner.tokens_eq_of_stops fun before rest here _ => (alike before rest here).read_eq

/-- A text without a number sign whose comments, wherever one may open, hold no other reads alike throughout. -/
theorem alike_of_single (hashless : '#' ∉ text)
    (single : ∀ rest ∈ text.tails, ['/', '*'] <+: rest → ¬ ['/', '*'] <:+: through ['*', '/'] (rest.drop 2)) :
    Alike isAlnum text := by
  intro before rest here
  have whole := here.whole
  have absent : '#' ∉ before := fun seen => hashless (whole ▸ List.mem_append_left _ (List.mem_reverse.mpr seen))
  refine ⟨fun opens => nested_one_eq_through (single rest ?_ opens), fun _ _ hash => ?_, fun hash => ?_⟩
  · exact (List.mem_tails _ _).mpr ⟨before.reverse, whole⟩
  · exact absurd (List.mem_of_mem_tail (List.mem_of_mem_head? hash)) absent
  · exact absurd (List.mem_of_mem_head? hash) absent

/-! ## Agreement, and where names are placed -/

/-- Merging changes nothing that is told character by character. -/
theorem flatMap_merged {β : Type*} (told : Kind → List Char → List β)
    (additive : ∀ first second, told .code (first ++ second) = told .code first ++ told .code second)
    (tokens : List (Kind × List Char)) :
    (merged tokens).flatMap (fun token => told token.1 token.2) = tokens.flatMap fun token => told token.1 token.2 := by
  fun_induction merged tokens with
  | case1 => rfl
  | case2 text rest more others together ih =>
    rw [List.flatMap_cons, List.flatMap_cons, ← ih, together, List.flatMap_cons, additive, List.append_assoc]
  | case3 text rest _ ih => rw [List.flatMap_cons, List.flatMap_cons, ih]
  | case4 token rest _ ih => rw [List.flatMap_cons, List.flatMap_cons, ih]

theorem kinds_merged (tokens : List (Kind × List Char)) :
    (merged tokens).flatMap (fun token => List.replicate token.2.length token.1) =
      tokens.flatMap fun token => List.replicate token.2.length token.1 := by
  refine flatMap_merged (fun kind text => List.replicate text.length kind) (fun first second => ?_) tokens
  rw [List.length_append, List.replicate_append_replicate]

theorem flatMap_codePieces (isAlnum : Char → Bool) (engine : String) (text : List Char) :
    (codePieces isAlnum engine text).flatMap Prod.snd = text := by
  rw [codePieces, flatMap_merged (fun _ spelled => spelled) fun _ _ => rfl]
  exact Scanner.flatMap_tokens _ text

theorem flatMap_partsOf (wanted : String → Bool) (piece : Kind × List Char) :
    (partsOf isAlnum wanted piece).flatMap Part.text = piece.2 := by
  unfold partsOf
  split
  · rw [List.flatMap_map]
    exact Scanner.flatMap_tokens _ piece.2
  · exact List.flatMap_singleton _ _

/-- The parts spell the statement. -/
theorem flatMap_parts (isAlnum : Char → Bool) (engine : String) (wanted : String → Bool) (text : List Char) :
    (parts isAlnum engine wanted text).flatMap Part.text = text := by
  conv_rhs => rw [← flatMap_codePieces isAlnum engine text]
  rw [parts, List.flatMap_assoc]
  exact congrArg (fun each => List.flatMap each _) (funext fun piece => flatMap_partsOf wanted piece)

theorem kinds_partsOf (wanted : String → Bool) (piece : Kind × List Char) :
    (partsOf isAlnum wanted piece).flatMap (fun part => List.replicate part.text.length part.kind) =
      List.replicate piece.2.length piece.1 := by
  unfold partsOf
  split
  · rename_i code
    rw [List.flatMap_map, code, List.eq_replicate_iff]
    refine ⟨?_, fun kind met => ?_⟩
    · conv_rhs => rw [← Scanner.flatMap_tokens (names isAlnum) piece.2]
      rw [List.length_flatMap, List.length_flatMap]
      simp
    · obtain ⟨token, _, repeated⟩ := List.mem_flatMap.mp met
      exact List.eq_of_mem_replicate repeated
  · simp

/-- Each part of a statement, once for every position of its text. -/
def placed (isAlnum : Char → Bool) (wanted : String → Bool) (text : List Char) : List Part :=
  spread Part.text (parts isAlnum "postgresql" wanted text)

theorem map_kind_placed (wanted : String → Bool) (text : List Char) :
    (placed isAlnum wanted text).map Part.kind = (pieces isAlnum "postgresql").kinds text := by
  rw [placed, map_spread, parts, List.flatMap_assoc, Scanner.kinds, ← kinds_merged]
  exact congrArg (fun each => List.flatMap each _) (funext fun piece => kinds_partsOf wanted piece)

variable {wanted : String → Bool} {part : Part}

/-- Only code says a name. -/
theorem kind_of_named {engine : String} (listed : part ∈ parts isAlnum engine wanted text)
    (named : part.name.isSome = true) : part.kind = .code := by
  obtain ⟨piece, _, inside⟩ := List.mem_flatMap.mp listed
  unfold partsOf at inside
  split at inside
  · obtain ⟨token, _, rfl⟩ := List.mem_map.mp inside
    rfl
  · obtain rfl := List.mem_singleton.mp inside
    cases named

theorem code_of_placed {place : Nat} (here : (placed isAlnum wanted text)[place]? = some part)
    (named : part.name.isSome = true) : ((pieces isAlnum "postgresql").kinds text)[place]? = some .code := by
  rw [← map_kind_placed wanted text, List.getElem?_map, here, Option.map_some,
    kind_of_named (mem_of_getElem?_spread here) named]

section

variable {V : Type} {style : String} {values : List (String × V)}

/-- A part is written behind the text so far, as it stands unless it says a name. -/
theorem Binding.write_text (engine style : String) (values : List (String × V)) (state : Binding V) (part : Part) :
    ∃ chunk, (state.write engine style values part).text = state.text ++ chunk ∧
      (part.name = none → chunk = part.text ∨ chunk = doubled part.text) := by
  unfold Binding.write
  split
  · split
    · exact ⟨_, rfl, fun _ => .inr rfl⟩
    · exact ⟨_, rfl, fun _ => .inl rfl⟩
  · rename_i said
    have named : part.name ≠ none := by
      intro nameless
      rw [nameless] at said
      cases said
    split
    · exact ⟨_, rfl, fun nameless => absurd nameless named⟩
    · exact ⟨_, rfl, fun nameless => absurd nameless named⟩

theorem Binding.foldl_write_text (engine style : String) (values : List (String × V)) (state : Binding V)
    (parts : List Part) :
    ∃ chunks : List (Part × List Char), chunks.map Prod.fst = parts ∧
      (parts.foldl (Binding.write engine style values) state).text = state.text ++ chunks.flatMap Prod.snd ∧
      ∀ chunk ∈ chunks, chunk.1.name = none → chunk.2 = chunk.1.text ∨ chunk.2 = doubled chunk.1.text := by
  induction parts generalizing state with
  | nil => exact ⟨[], rfl, (List.append_nil _).symm, fun _ met => absurd met List.not_mem_nil⟩
  | cons part parts ih =>
    obtain ⟨chunk, written, kept⟩ := state.write_text engine style values part
    obtain ⟨chunks, spelled, text, each⟩ := ih (state.write engine style values part)
    refine ⟨(part, chunk) :: chunks, ?_, ?_, ?_⟩
    · rw [List.map_cons, spelled]
    · rw [List.foldl_cons, text, written, List.flatMap_cons, List.append_assoc]
    · rintro other (_ | ⟨_, met⟩)
      · exact kept
      · exact each other met

/-- What is written is the statement's parts, each as it stands unless it says a name. -/
theorem bindNamedValues_chunks {engine : String} {written : List Char} {bound : List V}
    (outcome : bindNamedValues isAlnum engine style values text = .ok (written, bound)) :
    ∃ chunks : List (Part × List Char),
      chunks.map Prod.fst = parts isAlnum engine (fun name => (values.lookup name).isSome) text ∧
      written = chunks.flatMap Prod.snd ∧
      ∀ chunk ∈ chunks, chunk.1.name = none → chunk.2 = chunk.1.text ∨ chunk.2 = doubled chunk.1.text := by
  unfold bindNamedValues at outcome
  dsimp only at outcome
  split at outcome
  · cases outcome
    refine ⟨(parts isAlnum engine (fun name => (values.lookup name).isSome) text).map fun part => (part, part.text),
      ?_, ?_, ?_⟩
    · rw [List.map_map]
      exact List.map_id _
    · rw [List.flatMap_map]
      exact (flatMap_parts _ _ _ _).symm
    · rintro chunk met _
      obtain ⟨part, _, rfl⟩ := List.mem_map.mp met
      exact .inl rfl
  · split at outcome
    · cases outcome
    · split at outcome
      · cases outcome
      · cases outcome
        exact Binding.foldl_write_text engine style values ⟨[], [], []⟩ _

end

/-- What the split reads as a comment or as quoted, the pieces read as other than code too. -/
def Agree (isAlnum : Char → Bool) (text : List Char) : Prop :=
  ∀ (place : Nat) (kind : Kind), ((split isAlnum).kinds text)[place]? = some kind → kind ≠ .code →
    ∃ other, ((pieces isAlnum "postgresql").kinds text)[place]? = some other ∧ other ≠ .code

/-- The text and what is written for it cut alike into chunks, and a chunk that is written otherwise, percent signs
apart, stands where both read code. -/
def BindsInCode {V : Type} (isAlnum : Char → Bool) (style : String) (values : List (String × V)) (text : List Char) :
    Prop :=
  ∀ written bound, bindNamedValues isAlnum "postgresql" style values text = .ok (written, bound) →
    ∃ chunks : List (List Char × List Char), chunks.flatMap Prod.fst = text ∧ chunks.flatMap Prod.snd = written ∧
      ∀ (place : Nat) (chunk : List Char × List Char), (spread Prod.fst chunks)[place]? = some chunk →
        chunk.2 ≠ chunk.1 → chunk.2 ≠ doubled chunk.1 →
        ((split isAlnum).kinds text)[place]? = some .code ∧
          ((pieces isAlnum "postgresql").kinds text)[place]? = some .code

/-- Where the text reads alike at every place the split stops at, the lexers agree and names are bound in code only. -/
theorem lexers_agree_of_alike {V : Type} (isAlnum : Char → Bool) (style : String) (values : List (String × V))
    (text : List Char) (alike : Alike isAlnum text) :
    Agree isAlnum text ∧ BindsInCode isAlnum style values text := by
  have same : (split isAlnum).kinds text = (pieces isAlnum "postgresql").kinds text := by
    rw [Scanner.kinds, Scanner.kinds, alike.tokens_eq]
  refine ⟨fun place kind here other => ⟨kind, same ▸ here, other⟩, fun written bound outcome => ?_⟩
  obtain ⟨chunks, spelled, text_written, each⟩ := bindNamedValues_chunks outcome
  refine ⟨chunks.map fun chunk => (chunk.1.text, chunk.2), ?_, ?_, fun place chunk here replaced plain => ?_⟩
  · rw [List.flatMap_map]
    conv_rhs => rw [← flatMap_parts isAlnum "postgresql" (fun name => (values.lookup name).isSome) text, ← spelled]
    rw [List.flatMap_map]
  · rw [List.flatMap_map, text_written]
  · rw [spread_map, List.getElem?_map] at here
    obtain ⟨source, found, rfl⟩ := Option.map_eq_some_iff.mp here
    have named : source.1.name.isSome = true := by
      rw [Option.isSome_iff_ne_none]
      intro nameless
      exact (each source (mem_of_getElem?_spread found) nameless).elim replaced plain
    have part_here : (placed isAlnum (fun name => (values.lookup name).isSome) text)[place]? = some source.1 := by
      rw [placed, ← spelled, spread_map, List.getElem?_map]
      exact congrArg (Option.map Prod.fst) found
    have code := code_of_placed part_here named
    exact ⟨same ▸ code, code⟩

theorem lexers_agree_of_alike_comments :
    Agree Char.isAlphanum "SELECT /* a:b */ 'it''s :a' || :a".toList ∧
      BindsInCode Char.isAlphanum "format" [("a", 7)] "SELECT /* a:b */ 'it''s :a' || :a".toList :=
  lexers_agree_of_alike Char.isAlphanum "format" [("a", 7)] "SELECT /* a:b */ 'it''s :a' || :a".toList
    (alike_of_single (by decide) (by decide))

/-- A name in the rest of a nested comment is bound: the pieces end the comment at its first close. -/
theorem nested_comment_is_bound :
    bindNamedValues Char.isAlphanum "postgresql" "format" [("a", 7)] "/* /* */ :a */ SELECT 1".toList =
        .ok ("/* /* */ $1 */ SELECT 1".toList, [7]) ∧
      ((split Char.isAlphanum).kinds "/* /* */ :a */ SELECT 1".toList).take 14 = List.replicate 14 .comment ∧
      ¬ ∀ (isAlnum : Char → Bool) (style : String) (values : List (String × Nat)) (text : List Char),
        Agree isAlnum text ∧ BindsInCode isAlnum style values text := by
  refine ⟨by decide, by decide, fun claimed => ?_⟩
  have agree := (claimed Char.isAlphanum "format" [] "/* /* */ :a */ SELECT 1".toList).1
  obtain ⟨other, found, different⟩ := agree 9 .comment (by decide) (by decide)
  have code : ((pieces Char.isAlphanum "postgresql").kinds "/* /* */ :a */ SELECT 1".toList)[9]? = some .code := by
    decide
  exact different (Option.some.inj (found.symm.trans code))

end DbaBrain.Lib.PostgresLexers
