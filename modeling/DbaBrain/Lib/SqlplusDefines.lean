import DbaBrain.Foundation.Dict
import DbaBrain.Foundation.Replacing
import DbaBrain.Foundation.Scan
import DbaBrain.Foundation.Text

/-!
# SQL*Plus substitutions

`expand_sqlplus_defines` takes the `DEFINE` lines out of a script and replaces
`&&name` and `&name` one name after the other, each with a regular expression of
its own.  The purpose is one substitution of all references at once.  The passes
do the same where nothing a pass writes, and nothing behind a reference, changes
how a reference is read.
-/

namespace DbaBrain.Lib.SqlplusDefines

open DbaBrain.Foundation DbaBrain.Foundation.Scan DbaBrain.Foundation.Replacing

/-! ## Letters -/

/-- A letter as `IGNORECASE` sees it: two letters beside `i` are one with it, one beside `s` and one beside `k`. -/
def fold (c : Char) : Char :=
  if c = '\u0131' ∨ c = '\u0130' then 'i'
  else if c = '\u017f' then 's'
  else if c = '\u212a' then 'k'
  else c.toLower

/-- `[A-Za-z_]`. -/
def isNameStart (c : Char) : Bool := ('a' ≤ fold c && fold c ≤ 'z') || fold c = '_'

/-- `[A-Za-z0-9_$#]`. -/
def isNameChar (c : Char) : Bool :=
  isNameStart c || ('0' ≤ fold c && fold c ≤ '9') || fold c = '$' || fold c = '#'

def isName (name : List Char) : Bool := name.head?.any isNameStart && name.all isNameChar

/-- `str.upper` of a name's letter. -/
def upperLetter (c : Char) : Char := if c = '\u0131' then 'I' else if c = '\u017f' then 'S' else c.toUpper

def upper (name : List Char) : List Char := name.map upperLetter

/-- The names are one but for their case. -/
def alike (name other : List Char) : Bool := name.map fold = other.map fold

/-! ## Definitions -/

def isBlank (c : Char) : Bool := c = ' ' || c = '\t'

/-- What stands behind a word in any case. -/
def afterWord (word text : List Char) : Option (List Char) :=
  if (text.take word.length).map fold = word then some (text.drop word.length) else none

def defineLine (line : List Char) : Option (List Char × List Char) :=
  let start := line.dropWhile isBlank
  match (afterWord ['d', 'e', 'f', 'i', 'n', 'e'] start).or (afterWord ['d', 'e', 'f'] start) with
  | none => none
  | some behind =>
      let named := behind.dropWhile isBlank
      if behind.head?.any isBlank && named.head?.any isNameStart then
        let name := named.takeWhile isNameChar
        let given := (named.drop name.length).dropWhile isBlank
        some (name, if given.head? = some '=' then given.tail.dropWhile isBlank else given)
      else none

/-- `value.rstrip(";")`. -/
def stripSemicolons (value : List Char) : List Char := (value.reverse.dropWhile fun c => c = ';').reverse

def unquoted (value : List Char) : List Char :=
  if 2 ≤ value.length ∧ value.head? = value.getLast? ∧ (value.head? = some '\'' ∨ value.head? = some '"') then
    value.tail.dropLast
  else value

def definedValue (raw : List Char) : List Char :=
  unquoted (Text.stripChars (stripSemicolons (Text.stripChars raw)))

/-- `_DEFINE_LINE.findall`. -/
def definitions (text : List Char) : List (List Char × List Char) := (text.splitOn '\n').filterMap defineLine

/-- The values by upper-case name, the overrides last. -/
def values (text : List Char) (overrides : List (List Char × List Char)) : Dict (List Char) (List Char) :=
  (Dict.empty.update ((definitions text).map fun found => (upper found.1, definedValue found.2))).update
    (overrides.map fun given => (upper given.1, given.2))

/-- `_DEFINE_LINE.sub("", sql_text)`. -/
def dropDefines (text : List Char) : List Char :=
  ['\n'].intercalate ((text.splitOn '\n').map fun line => if (defineLine line).isSome then [] else line)

/-! ## The passes -/

def marker (double : Bool) : List Char := if double then ['&', '&'] else ['&']

/-- One name in one of its two forms. -/
structure Pass where
  double : Bool
  name : List Char
  value : List Char

/-- The name as a regular expression, in which a dollar sign is the end of the text, or before its last newline. -/
def matchName : List Char → List Char → Option (List Char)
  | [], rest => some rest
  | '$' :: name, rest => if rest = [] ∨ rest = ['\n'] then matchName name rest else none
  | _ :: _, [] => none
  | c :: name, d :: rest => if fold d = fold c then matchName name rest else none

/-- `marker + name + "\.?(?![A-Za-z0-9_$#])"`: the dot is given back where a name would go on behind it. -/
def Pass.found (pass : Pass) (text : List Char) : Option Nat :=
  if marker pass.double <+: text then
    match matchName pass.name (text.drop (marker pass.double).length) with
    | none => none
    | some after =>
        if after.head? = some '.' && !after.tail.head?.any isNameChar then some (text.length - after.tail.length - 1)
        else if after.head?.any isNameChar then none
        else some (text.length - after.length - 1)
  else none

def Pass.run (pass : Pass) (text : List Char) : List Char := replaceAll pass.found pass.value text

def passesOf (double : Bool) (entries : List (List Char × List Char)) : List Pass :=
  entries.map fun entry => ⟨double, entry.1, entry.2⟩

def passes (entries : List (List Char × List Char)) : List Pass := passesOf true entries ++ passesOf false entries

def expandSqlplusDefines (text : List Char) (overrides : List (List Char × List Char)) : List Char :=
  let entries := (values text overrides).entries
  if entries = [] then text
  else Text.stripChars ((passes entries).foldl (fun body pass => pass.run body) (dropDefines text))

/-! ## One substitution -/

/-- A reference: its form, its name at its longest, and whether a dot ends it. -/
structure Reference where
  double : Bool
  name : List Char
  dotted : Bool

def Reference.spelled (reference : Reference) : List Char :=
  marker reference.double ++ (reference.name ++ if reference.dotted then ['.'] else [])

def named (double : Bool) (rest : List Char) : Option Reference :=
  if rest.head?.any isNameStart then
    let name := rest.takeWhile isNameChar
    some ⟨double, name, (rest.drop name.length).head? = some '.'⟩
  else none

/-- The reference that begins a text. -/
def reference : List Char → Option Reference
  | '&' :: '&' :: rest => named true rest
  | '&' :: rest => named false rest
  | _ => none

def readReference (rest : List Char) : Option Reference × List Char :=
  match reference rest with
  | some found => (some found, found.spelled)
  | none => (none, rest.take 1)

variable {double : Bool} {rest : List Char} {found : Reference} {c : Char} {name other text : List Char}
  {overrides entries : List (List Char × List Char)}

theorem spelled_front (names : named double rest = some found) : found.spelled <+: marker double ++ rest := by
  unfold named at names
  split at names
  · cases names
    rw [Reference.spelled, List.prefix_append_right_inj]
    have whole := List.prefix_append_drop (List.takeWhile_prefix isNameChar (l := rest))
    conv_rhs => rw [whole]
    rw [List.prefix_append_right_inj]
    split
    · rename_i dot
      obtain ⟨more, behind⟩ := List.head?_eq_some_iff.mp (of_decide_eq_true dot)
      exact ⟨more, behind.symm⟩
    · exact List.nil_prefix
  · cases names

theorem reference_cases (here : reference rest = some found) :
    ∃ behind, rest = marker found.double ++ behind ∧ named found.double behind = some found := by
  have own {double : Bool} {behind : List Char} (names : named double behind = some found) : found.double = double := by
    unfold named at names
    split at names
    · cases names
      rfl
    · cases names
  unfold reference at here
  split at here
  · rename_i behind
    rw [own here]
    exact ⟨behind, rfl, here⟩
  · rename_i behind _
    rw [own here]
    exact ⟨behind, rfl, here⟩
  · cases here

def references : Scanner Char (Option Reference) where
  read _ := readReference
  front _ rest := by
    unfold readReference
    split
    · rename_i here
      obtain ⟨behind, rfl, names⟩ := reference_cases here
      exact spelled_front names
    · exact List.take_prefix 1 rest
  moves _ rest more := by
    unfold readReference
    split
    · rename_i found _
      rw [Reference.spelled, marker]
      split <;> simp
    · simpa using more

/-- What is written for a token where the references of some forms and names have values. -/
def written (known : Bool → List Char → Option (List Char)) (token : Option Reference × List Char) : List Char :=
  match token.1 with
  | some found => (known found.double found.name).getD token.2
  | none => token.2

@[simp]
theorem written_none (known : Bool → List Char → Option (List Char)) (text : List Char) :
    written known (none, text) = text := rfl

@[simp]
theorem written_some (known : Bool → List Char → Option (List Char)) (found : Reference) (text : List Char) :
    written known (some found, text) = (known found.double found.name).getD text := rfl

def lookup (entries : List (List Char × List Char)) (name : List Char) : Option (List Char) :=
  (entries.find? fun entry => alike entry.1 name).map Prod.snd

/-- Every reference to a defined name replaced by its value, all else as it stands. -/
def simultaneous (entries : List (List Char × List Char)) (text : List Char) : List Char :=
  (references.tokens text).flatMap (written fun _ => lookup entries)

/-- What a reference before the next token asks of that token, so that the passes read it as the one substitution does:
behind a defined name's dot stands no name character; a value behind a reference or an ampersand, unless that was
replaced before, begins with something no name and no dot goes on with. -/
def apart (entries : List (List Char × List Char)) (token next : Option Reference × List Char) : Bool :=
  match next.1 with
  | none =>
      match token.1 with
      | none => true
      | some found => !(found.dotted && (lookup entries found.name).isSome && next.2.head?.any isNameChar)
  | some behind =>
      match lookup entries behind.name with
      | none => true
      | some value =>
          (token.1.isNone && token.2 ≠ ['&']) || value.head?.any (fun c => !isNameChar c && c ≠ '.') ||
            token.1.any fun found => found.double && !behind.double && (lookup entries found.name).isSome

/-! ## Letters and names -/

variable {d : Char}

theorem isNameStart_of_fold (same : fold c = fold d) : isNameStart c = isNameStart d := by
  rw [isNameStart, isNameStart, same]

theorem isNameChar_of_fold (same : fold c = fold d) : isNameChar c = isNameChar d := by
  rw [isNameChar, isNameChar, isNameStart_of_fold same, same]

theorem isNameChar_of_isNameStart (starts : isNameStart c = true) : isNameChar c = true := by
  rw [isNameChar, starts]
  rfl

theorem fold_upperLetter (c : Char) : fold (upperLetter c) = fold c := by
  unfold upperLetter
  split
  · rename_i dotless
    rw [dotless]
    decide
  · split
    · rename_i long
      rw [long]
      decide
    · by_cases lower : c.isLower = true
      · have plain {d : Char} (letter : d.isAlpha = true) : fold d = d.toLower := by
          unfold fold
          rw [if_neg, if_neg, if_neg]
          · rintro rfl
            exact absurd letter (by decide)
          · rintro rfl
            exact absurd letter (by decide)
          · rintro (rfl | rfl)
            · exact absurd letter (by decide)
            · exact absurd letter (by decide)
        have letter : c.isAlpha = true := by rw [Char.isAlpha, lower, Bool.or_true]
        rw [plain letter, plain (by rw [Char.isAlpha_toUpper_eq_isAlpha, letter]), Char.toLower_toUpper_eq_toLower]
      · rw [Char.toUpper_eq_of_not_isLower lower]

theorem alike_upper (name : List Char) : alike (upper name) name = true := by
  rw [alike, upper, List.map_map]
  exact decide_eq_true (List.map_congr_left fun c _ => fold_upperLetter c)

theorem alike_iff : alike name other = true ↔ name.map fold = other.map fold :=
  decide_eq_true_iff

theorem all_of_alike (same : alike name other = true) {holds : Char → Bool}
    (folds : ∀ c d, fold c = fold d → holds c = holds d) : name.all holds = other.all holds := by
  have each := alike_iff.mp same
  induction name generalizing other with
  | nil =>
    cases other with
    | nil => rfl
    | cons d other => cases each
  | cons c name ih =>
    cases other with
    | nil => cases each
    | cons d other =>
      obtain ⟨first, rest⟩ := List.cons.inj each
      rw [List.all_cons, List.all_cons, folds c d first, ih (alike_iff.mpr rest) rest]

theorem isName_of_alike (same : alike name other = true) (names : isName other = true) : isName name = true := by
  unfold isName at names ⊢
  rw [Bool.and_eq_true] at names ⊢
  refine ⟨?_, (all_of_alike same fun _ _ => isNameChar_of_fold).trans names.2⟩
  have each := alike_iff.mp same
  cases other with
  | nil => cases names.1
  | cons d other =>
    cases name with
    | nil => cases each
    | cons c name =>
      have first := (List.cons.inj each).1
      simpa [isNameStart_of_fold first] using names.1

theorem takeWhile_name {behind : List Char} (letters : name.all isNameChar = true)
    (ends : behind.head?.any isNameChar = false) : (name ++ behind).takeWhile isNameChar = name := by
  rw [List.takeWhile_append_of_pos (List.all_eq_true.mp letters)]
  cases behind with
  | nil => exact List.append_nil name
  | cons c behind =>
    have other : ¬ isNameChar c = true := by simpa using ends
    rw [List.takeWhile_cons_of_neg other, List.append_nil]

/-! ## What a pass finds -/

theorem matchName_eq_some_iff {after : List Char} (plain : '$' ∉ name) :
    matchName name rest = some after ↔ ∃ said, rest = said ++ after ∧ alike said name = true := by
  fun_induction matchName name rest with
  | case1 rest =>
    constructor
    · intro found
      cases found
      exact ⟨[], rfl, rfl⟩
    · rintro ⟨said, rfl, same⟩
      obtain rfl := List.map_eq_nil_iff.mp (alike_iff.mp same)
      rfl
  | case2 => exact absurd List.mem_cons_self plain
  | case3 => exact absurd List.mem_cons_self plain
  | case4 c name =>
    constructor
    · intro found
      cases found
    · rintro ⟨said, empty, same⟩
      obtain ⟨rfl, rfl⟩ := List.append_eq_nil_iff.mp empty.symm
      cases alike_iff.mp same
  | case5 c name d rest _ one ih =>
    rw [ih fun later => plain (List.mem_cons_of_mem c later)]
    constructor
    · rintro ⟨said, rfl, same⟩
      exact ⟨d :: said, rfl, alike_iff.mpr (by rw [List.map_cons, List.map_cons, one, alike_iff.mp same])⟩
    · rintro ⟨said, spelled, same⟩
      cases said with
      | nil => cases alike_iff.mp same
      | cons e said =>
        obtain ⟨rfl, rfl⟩ := List.cons.inj spelled
        exact ⟨said, rfl, alike_iff.mpr (List.cons.inj (alike_iff.mp same)).2⟩
  | case6 c name d rest _ other =>
    constructor
    · intro found
      cases found
    · rintro ⟨said, spelled, same⟩
      cases said with
      | nil => cases alike_iff.mp same
      | cons e said =>
        obtain ⟨rfl, rfl⟩ := List.cons.inj spelled
        exact absurd (List.cons.inj (alike_iff.mp same)).1 other

/-- The name of a pass is one, and no part of it is read as the end of the text. -/
structure Pass.Plain (pass : Pass) : Prop where
  names : isName pass.name = true
  plain : '$' ∉ pass.name

section

variable {pass : Pass} (plain : pass.Plain)

include plain

theorem Pass.found_some {more : Nat} (here : pass.found text = some more) :
    ∃ said after, text = marker pass.double ++ (said ++ after) ∧ alike said pass.name = true ∧
      after.head?.any isNameChar = false := by
  unfold Pass.found at here
  split at here
  · rename_i marked
    obtain ⟨rest, rfl⟩ := marked
    rw [List.drop_left] at here
    split at here
    · cases here
    · rename_i after matched
      obtain ⟨said, rfl, same⟩ := (matchName_eq_some_iff plain.plain).mp matched
      refine ⟨said, after, rfl, same, ?_⟩
      split at here
      · rename_i dotted
        rw [Bool.and_eq_true, decide_eq_true_eq] at dotted
        rw [dotted.1]
        decide
      · split at here
        · cases here
        · rename_i ends
          exact Bool.eq_false_iff.mpr ends
  · cases here

theorem Pass.found_eq_none (other : ∀ c rest, text = marker pass.double ++ c :: rest → isNameStart c = false) :
    pass.found text = none := by
  cases here : pass.found text with
  | none => rfl
  | some more =>
    obtain ⟨said, after, rfl, same, _⟩ := Pass.found_some plain here
    have names := isName_of_alike same plain.names
    cases said with
    | nil => cases names
    | cons c said =>
      have starts : isNameStart c = true := (Bool.and_eq_true_iff.mp names).1
      rw [other c _ rfl] at starts
      cases starts

/-- A whole name that is another's is not found. -/
theorem Pass.found_eq_none_of_other {behind : List Char} (letters : name.all isNameChar = true)
    (ends : behind.head?.any isNameChar = false) (other : alike pass.name name = false) :
    pass.found (marker pass.double ++ (name ++ behind)) = none := by
  cases here : pass.found (marker pass.double ++ (name ++ behind)) with
  | none => rfl
  | some more =>
    obtain ⟨said, after, spelled, same, closed⟩ := Pass.found_some plain here
    have said_letters : said.all isNameChar = true :=
      (Bool.and_eq_true_iff.mp (isName_of_alike same plain.names)).2
    have whole : said = name := by
      rw [← takeWhile_name said_letters closed, ← List.append_cancel_left spelled, takeWhile_name letters ends]
    rw [whole, alike_iff] at same
    rw [alike_iff.mpr same.symm] at other
    cases other

theorem Pass.found_spelled (rest : List Char) (form : found.double = pass.double)
    (same : alike found.name pass.name = true) (ends : rest.head?.any isNameChar = false)
    (undotted : found.dotted = false → rest.head? ≠ some '.') :
    pass.found (found.spelled ++ rest) = some (found.spelled.length - 1) := by
  have matched : matchName pass.name (found.name ++ ((if found.dotted then ['.'] else []) ++ rest)) =
      some ((if found.dotted then ['.'] else []) ++ rest) := (matchName_eq_some_iff plain.plain).mpr ⟨_, rfl, same⟩
  unfold Pass.found Reference.spelled
  rw [form, List.append_assoc, if_pos ⟨_, rfl⟩, List.drop_left, List.append_assoc, matched]
  dsimp only
  cases dotted : found.dotted with
  | true =>
    simp only [if_true, List.singleton_append, List.head?_cons, List.tail_cons, ends, Bool.not_false, Bool.and_true,
      decide_true]
    simp
    omega
  | false =>
    rw [if_neg (by simp [undotted dotted]), if_neg (by simp [ends])]
    simp
    omega

end

/-! ## What the tokens of a text are -/

abbrev Token := Option Reference × List Char

def Wellformed (token : Token) : Prop :=
  match token.1 with
  | none => ∃ c, token.2 = [c]
  | some found => token.2 = found.spelled ∧ isName found.name = true

/-- What the reading of one token makes sure of the next. -/
structure Follows (token next : Token) : Prop where
  start : token = (none, ['&']) → next.1 = none → next.2.head?.any isNameStart = false
  double : token = (none, ['&']) → ∀ found, next.1 = some found → found.double = true
  ends : ∀ found, token.1 = some found → found.dotted = false → next.1 = none →
    next.2.head?.any isNameChar = false ∧ next.2.head? ≠ some '.'

theorem isName_of_named (names : named double rest = some found) : isName found.name = true := by
  unfold named at names
  split at names
  · rename_i starts
    cases names
    cases rest with
    | nil => cases starts
    | cons c rest =>
      have first : isNameStart c = true := starts
      unfold isName
      rw [List.takeWhile_cons_of_pos (isNameChar_of_isNameStart first), List.head?_cons, Option.any_some, first,
        Bool.true_and, List.all_cons, isNameChar_of_isNameStart first, Bool.true_and]
      exact List.all_takeWhile
  · cases names

/-- Behind a name at its longest stands no name character, and behind one without a dot no dot. -/
theorem ends_of_named (names : named double rest = some found) (undotted : found.dotted = false) :
    (rest.drop found.name.length).head?.any isNameChar = false ∧ (rest.drop found.name.length).head? ≠ some '.' := by
  unfold named at names
  split at names
  · cases names
    refine ⟨?_, of_decide_eq_false undotted⟩
    dsimp only
    have behind : rest.drop (rest.takeWhile isNameChar).length = rest.dropWhile isNameChar := by
      refine (List.append_right_inj (rest.takeWhile isNameChar)).mp ?_
      rw [List.takeWhile_append_dropWhile]
      exact (List.prefix_append_drop (List.takeWhile_prefix isNameChar)).symm
    rw [behind]
    cases left : (rest.dropWhile isNameChar).head? with
    | none => rfl
    | some c =>
      have other := List.head?_dropWhile_not isNameChar rest
      rw [left] at other
      simpa using other
  · cases names

theorem readReference_none (read : (readReference rest).1 = none) :
    reference rest = none ∧ (readReference rest).2 = rest.take 1 := by
  unfold readReference at read ⊢
  split at read
  · cases read
  · exact ⟨by assumption, rfl⟩

theorem readReference_some (read : (readReference rest).1 = some found) :
    reference rest = some found ∧ (readReference rest).2 = found.spelled := by
  unfold readReference at read ⊢
  split at read
  · cases read
    exact ⟨by assumption, rfl⟩
  · cases read

theorem wellformed_tokens (text : List Char) : ∀ token ∈ references.tokens text, Wellformed token := by
  refine Scanner.forall_mem_tokens references (fun _ rest more => ?_) text
  change Wellformed (readReference rest)
  unfold Wellformed
  split
  · rename_i absent
    obtain ⟨_, spelled⟩ := readReference_none absent
    cases rest with
    | nil => exact absurd rfl more
    | cons c rest => exact ⟨c, spelled⟩
  · rename_i found here
    obtain ⟨reads, spelled⟩ := readReference_some here
    obtain ⟨_, _, names⟩ := reference_cases reads
    exact ⟨spelled, isName_of_named names⟩

theorem follows_tokens (text : List Char) : (references.tokens text).IsChain Follows := by
  refine Scanner.isChain_tokens references (fun _ rest more left => ?_) text
  change Follows (readReference rest) (readReference (rest.drop (readReference rest).2.length))
  have ampersand (read : readReference rest = (none, ['&'])) :
      ∃ behind, rest = '&' :: behind ∧ reference ('&' :: behind) = none ∧
        rest.drop (readReference rest).2.length = behind := by
    obtain ⟨absent, spelled⟩ := readReference_none (congrArg Prod.fst read)
    rw [read] at spelled
    cases rest with
    | nil => cases spelled
    | cons c behind =>
      obtain rfl : '&' = c := (List.cons.inj spelled).1
      exact ⟨behind, rfl, absent, by rw [read]; rfl⟩
  refine ⟨fun read plain => ?_, fun read found next => ?_, fun found here undotted plain => ?_⟩
  · obtain ⟨behind, rfl, absent, after⟩ := ampersand read
    rw [after] at plain ⊢
    obtain ⟨_, spelled⟩ := readReference_none plain
    rw [spelled]
    cases behind with
    | nil => rfl
    | cons c behind =>
      by_contra starts
      have first : isNameStart c = true := by simpa using starts
      have single : c ≠ '&' := by
        rintro rfl
        exact absurd first (by decide)
      rw [reference, named, if_pos (by simpa using first)] at absent
      · cases absent
      · intro more same
        exact single (List.cons.inj same).1
  · obtain ⟨behind, rfl, absent, after⟩ := ampersand read
    rw [after] at next
    obtain ⟨reads, _⟩ := readReference_some next
    obtain ⟨inner, rfl, names⟩ := reference_cases reads
    cases form : found.double with
    | true => rfl
    | false =>
      rw [form] at names absent
      have both : named true inner = none := absent
      unfold named at names both
      split at names
      · rename_i starts
        rw [if_pos starts] at both
        cases both
      · cases names
  · obtain ⟨reads, spelled⟩ := readReference_some here
    obtain ⟨behind, rfl, names⟩ := reference_cases reads
    have after : (marker found.double ++ behind).drop (readReference (marker found.double ++ behind)).2.length =
        behind.drop found.name.length := by
      rw [spelled, Reference.spelled, undotted, if_neg Bool.false_ne_true, List.append_nil, List.length_append,
        List.drop_append, List.drop_eq_nil_of_le (Nat.le_add_right _ _), List.nil_append, Nat.add_sub_cancel_left]
    rw [after] at plain ⊢
    obtain ⟨_, first⟩ := readReference_none plain
    have head : ((behind.drop found.name.length).take 1).head? = (behind.drop found.name.length).head? := by
      cases behind.drop found.name.length with
      | nil => rfl
      | cons c rest => rfl
    rw [first, head]
    exact ends_of_named names undotted

/-! ## One pass -/

abbrev Known := Bool → List Char → Option (List Char)

/-- What one more pass makes known. -/
def learn (known : Known) (pass : Pass) : Known := fun double name =>
  (known double name).or (if double = pass.double ∧ alike pass.name name = true then some pass.value else none)

/-- The pass is one of those for the entries, and what is known when it comes is what passes before it left. -/
structure Ready (entries : List (List Char × List Char)) (known : Known) (pass : Pass) : Prop extends
    Pass.Plain pass where
  part : ∀ double name value, known double name = some value → lookup entries name = some value
  clean : ∀ name value, lookup entries name = some value → '&' ∉ value
  doubleFirst : ∀ name other, (known false name).isSome = true → (lookup entries other).isSome = true →
    (known true other).isSome = true
  phase : pass.double = false → ∀ name, (lookup entries name).isSome = true → (known true name).isSome = true
  mine : ∀ name, alike pass.name name = true → (lookup entries name).isSome = true

def Beside (entries : List (List Char × List Char)) (token next : Token) : Prop :=
  Follows token next ∧ apart entries token next = true

section

variable {entries : List (List Char × List Char)} {known : Known} {pass : Pass} {token : Token} {tokens : List Token}

/-- A reference that is not known yet, or an ampersand. -/
def Stands (known : Known) (token : Token) : Prop :=
  token = (none, ['&']) ∨ ∃ found, token.1 = some found ∧ known found.double found.name = none

theorem behind_of_stands (ready : Ready entries known pass) (chain : (token :: tokens).IsChain (Beside entries))
    (forms : ∀ next ∈ tokens, Wellformed next) (stands : Stands known token) :
    (∃ c later, tokens = (none, [c]) :: later) ∨
      (∃ found later, tokens = (some found, found.spelled) :: later ∧ known found.double found.name = none) ∨
      ∀ c, (tokens.flatMap (written known)).head? = some c → isNameChar c = false ∧ c ≠ '.' ∧ c ≠ '&' := by
  cases tokens with
  | nil => exact .inr (.inr fun c first => by cases first)
  | cons next later =>
    obtain ⟨⟨_, beside⟩, _⟩ := List.isChain_cons_cons.mp chain
    have form := forms next List.mem_cons_self
    obtain ⟨kind, text⟩ := next
    cases kind with
    | none =>
      obtain ⟨c, rfl⟩ := form
      exact .inl ⟨c, later, rfl⟩
    | some found =>
      obtain ⟨rfl, _⟩ := form
      cases held : known found.double found.name with
      | none => exact .inr (.inl ⟨found, later, rfl, held⟩)
      | some value =>
        refine .inr (.inr fun c first => ?_)
        have defined := ready.part _ _ _ held
        rw [apart] at beside
        simp only [defined, Bool.or_eq_true, Bool.and_eq_true] at beside
        have opens : value.head?.any (fun c => !isNameChar c && c ≠ '.') = true := by
          rcases beside with (⟨plain, apart_from⟩ | opens) | early
          · rcases stands with rfl | ⟨before, here, _⟩
            · simp at apart_from
            · rw [here] at plain
              cases plain
          · exact opens
          · rcases stands with rfl | ⟨before, here, unknown⟩
            · cases early
            · rw [here] at early
              simp only [Option.any_some, Bool.and_eq_true, Bool.not_eq_true'] at early
              have single : (known false found.name).isSome = true := by
                rw [← early.1.2, held]
                rfl
              have known_before := ready.doubleFirst found.name before.name single early.2
              rw [early.1.1] at unknown
              rw [unknown] at known_before
              cases known_before
        cases value with
        | nil => cases opens
        | cons d value =>
          rw [List.flatMap_cons, written_some, held] at first
          obtain rfl : d = c := Option.some.inj first
          have clean := ready.clean _ _ defined
          simp only [List.head?_cons, Option.any_some, Bool.and_eq_true, Bool.not_eq_true',
            decide_eq_true_eq] at opens
          exact ⟨opens.1, opens.2, fun ampersand => clean (ampersand ▸ List.mem_cons_self)⟩

variable {found : Reference} {rest : List Char}

theorem written_of_unknown (unknown : known found.double found.name = none) :
    written known (some found, found.spelled) = found.spelled := by
  rw [written_some, unknown]
  rfl

theorem head_spelled (found : Reference) (rest : List Char) : (found.spelled ++ rest).head? = some '&' := by
  rw [Reference.spelled, marker]
  split <;> rfl

theorem head_behind_ampersand (ready : Ready entries known pass)
    (chain : ((none, ['&']) :: tokens).IsChain (Beside entries)) (forms : ∀ next ∈ tokens, Wellformed next) :
    (tokens.flatMap (written known)).head?.any isNameStart = false := by
  rcases behind_of_stands ready chain forms (.inl rfl) with ⟨c, later, rfl⟩ | ⟨found, later, rfl, unknown⟩ | closed
  · exact (List.isChain_cons_cons.mp chain).1.1.start rfl rfl
  · rw [List.flatMap_cons, written_of_unknown unknown, head_spelled]
    decide
  · cases first : (tokens.flatMap (written known)).head? with
    | none => rfl
    | some c =>
      cases starts : isNameStart c with
      | false => simpa using starts
      | true =>
        have inside := (closed c first).1
        rw [isNameChar_of_isNameStart starts] at inside
        cases inside

theorem second_behind_ampersand (ready : Ready entries known pass)
    (chain : ((none, ['&']) :: tokens).IsChain (Beside entries)) (forms : ∀ next ∈ tokens, Wellformed next)
    (again : tokens.flatMap (written known) = '&' :: rest) : rest.head?.any isNameStart = false := by
  rcases behind_of_stands ready chain forms (.inl rfl) with ⟨c, later, rfl⟩ | ⟨found, later, rfl, unknown⟩ | closed
  · rw [List.flatMap_cons] at again
    obtain ⟨rfl, rfl⟩ := List.cons.inj again
    exact head_behind_ampersand ready chain.tail fun next met => forms next (List.mem_cons_of_mem _ met)
  · have double := (List.isChain_cons_cons.mp chain).1.1.double rfl found rfl
    rw [List.flatMap_cons, written_of_unknown unknown, Reference.spelled, double] at again
    rw [← (List.cons.inj again).2]
    rfl
  · exact absurd rfl (closed '&' (by rw [again]; rfl)).2.2

/-- Behind a reference that stands its name does not go on; behind a defined one's dot no other does. -/
theorem head_behind_reference (ready : Ready entries known pass)
    (chain : ((some found, found.spelled) :: tokens).IsChain (Beside entries))
    (forms : ∀ next ∈ tokens, Wellformed next) (unknown : known found.double found.name = none) :
    (found.dotted = false → (tokens.flatMap (written known)).head?.any isNameChar = false ∧
        (tokens.flatMap (written known)).head? ≠ some '.') ∧
      (found.dotted = true → (lookup entries found.name).isSome = true →
        (tokens.flatMap (written known)).head?.any isNameChar = false) := by
  rcases behind_of_stands ready chain forms (.inr ⟨found, rfl, unknown⟩) with
    ⟨c, later, rfl⟩ | ⟨other, later, rfl, other_unknown⟩ | closed
  · obtain ⟨follows, beside⟩ := (List.isChain_cons_cons.mp chain).1
    refine ⟨fun undotted => follows.ends found rfl undotted rfl, fun dotted defined => ?_⟩
    have other : [c].head?.any isNameChar = false := by simpa [apart, dotted, defined] using beside
    rw [List.flatMap_cons, written_none]
    exact other
  · rw [List.flatMap_cons, written_of_unknown other_unknown, head_spelled]
    exact ⟨fun _ => by decide, fun _ _ => by decide⟩
  · cases first : (tokens.flatMap (written known)).head? with
    | none => exact ⟨fun _ => ⟨rfl, by decide⟩, fun _ _ => rfl⟩
    | some c =>
      obtain ⟨other, dotless, _⟩ := closed c first
      exact ⟨fun _ => ⟨other, fun dot => dotless (Option.some.inj dot)⟩, fun _ _ => other⟩

theorem ampersand_of_marker {behind : List Char} (spelled : c :: rest = marker double ++ behind) : c = '&' := by
  unfold marker at spelled
  split at spelled <;> exact (List.cons.inj spelled).1

/-- Nothing is found in a text without an ampersand. -/
theorem run_append_of_clean (plain : pass.Plain) {front : List Char} (clean : '&' ∉ front) (rest : List Char) :
    pass.run (front ++ rest) = front ++ pass.run rest := by
  refine replaceAll_append_of_none front fun c tail inside => Pass.found_eq_none plain fun d more spelled => ?_
  obtain rfl := ampersand_of_marker spelled
  exact absurd (inside.subset List.mem_cons_self) clean

/-- In a reference that stands, another's pass finds nothing. -/
theorem found_none_of_unlike (plain : pass.Plain) (names : isName found.name = true)
    (ends : found.dotted = false → rest.head?.any isNameChar = false)
    (unlike : found.double = pass.double ∨ pass.double = false → alike pass.name found.name = false) {tail : List Char}
    (inside : c :: tail <:+ found.spelled) : pass.found (c :: tail ++ rest) = none := by
  have letters := (Bool.and_eq_true_iff.mp names).2
  have closed : ((if found.dotted then ['.'] else []) ++ rest).head?.any isNameChar = false := by
    cases dotted : found.dotted with
    | true => rfl
    | false => exact ends dotted
  -- The name behind one ampersand, which both forms have.
  have single : pass.found ('&' :: (found.name ++ ((if found.dotted then ['.'] else []) ++ rest))) = none := by
    cases form : pass.double with
    | false =>
      have other := Pass.found_eq_none_of_other plain letters closed (unlike (.inr form))
      rw [form] at other
      exact other
    | true =>
      refine Pass.found_eq_none plain fun d more spelled => ?_
      rw [form] at spelled
      cases found_name : found.name with
      | nil =>
        rw [found_name] at names
        cases names
      | cons e name =>
        rw [found_name] at spelled names
        obtain rfl : e = '&' := (List.cons.inj (List.cons.inj spelled).2).1
        cases names
  rw [Reference.spelled] at inside
  have later : ∀ {d : Char} {behind : List Char}, d :: behind <:+ found.name ++ (if found.dotted then ['.'] else []) →
      pass.found (d :: behind ++ rest) = none := by
    intro d behind within
    refine Pass.found_eq_none plain fun e more spelled => ?_
    obtain rfl := ampersand_of_marker spelled
    rcases List.mem_append.mp (within.subset List.mem_cons_self) with letter | dot
    · exact absurd (List.all_eq_true.mp letters '&' letter) (by decide)
    · split at dot
      · exact absurd dot (by decide)
      · cases dot
  cases form : found.double with
  | false =>
    replace inside : c :: tail <:+ '&' :: (found.name ++ if found.dotted then ['.'] else []) := by
      rw [form] at inside
      exact inside
    rcases List.suffix_cons_iff.mp inside with whole | within
    · rw [whole, List.cons_append, List.append_assoc]
      exact single
    · exact later within
  | true =>
    replace inside : c :: tail <:+ '&' :: '&' :: (found.name ++ if found.dotted then ['.'] else []) := by
      rw [form] at inside
      exact inside
    rcases List.suffix_cons_iff.mp inside with whole | within
    · rw [whole, List.cons_append, List.cons_append, List.append_assoc]
      cases own : pass.double with
      | true =>
        have other := Pass.found_eq_none_of_other plain letters closed (unlike (.inl (form.trans own.symm)))
        rw [own] at other
        exact other
      | false =>
        refine Pass.found_eq_none plain fun d more spelled => ?_
        rw [own] at spelled
        rw [← (List.cons.inj (List.cons.inj spelled).2).1]
        decide
    · rcases List.suffix_cons_iff.mp within with inner | deeper
      · rw [inner, List.cons_append, List.append_assoc]
        exact single
      · exact later deeper

theorem run_token (ready : Ready entries known pass) (chain : (token :: tokens).IsChain (Beside entries))
    (forms : ∀ next ∈ token :: tokens, Wellformed next) :
    pass.run (written known token ++ tokens.flatMap (written known)) =
      written (learn known pass) token ++ pass.run (tokens.flatMap (written known)) := by
  have form := forms token List.mem_cons_self
  have later : ∀ next ∈ tokens, Wellformed next := fun next met => forms next (List.mem_cons_of_mem _ met)
  obtain ⟨kind, text⟩ := token
  cases kind with
  | none =>
    obtain ⟨c, rfl⟩ := form
    refine replaceAll_cons_of_none (Pass.found_eq_none ready.toPlain fun d more spelled => ?_)
    obtain rfl := ampersand_of_marker spelled
    cases double : pass.double with
    | true =>
      rw [double] at spelled
      simpa using second_behind_ampersand ready chain later (List.cons.inj spelled).2
    | false =>
      rw [double] at spelled
      have starts := head_behind_ampersand ready chain later
      have behind : tokens.flatMap (written known) = d :: more := (List.cons.inj spelled).2
      rw [behind] at starts
      simpa using starts
  | some found =>
    obtain ⟨rfl, names⟩ := form
    cases held : known found.double found.name with
    | some value =>
      rw [written_some, written_some, learn, held]
      exact run_append_of_clean ready.toPlain (ready.clean _ _ (ready.part _ _ _ held)) _
    | none =>
      obtain ⟨undotted, dotted⟩ := head_behind_reference ready chain later held
      rw [written_some, written_some, learn, held, Option.getD_none]
      by_cases mine : found.double = pass.double ∧ alike pass.name found.name = true
      · rw [if_pos mine]
        have ends : (tokens.flatMap (written known)).head?.any isNameChar = false := by
          cases dot : found.dotted with
          | true => exact dotted dot (ready.mine _ mine.2)
          | false => exact (undotted dot).1
        have same : alike found.name pass.name = true := alike_iff.mpr (alike_iff.mp mine.2).symm
        refine replaceAll_append_of_found _ ?_
          (Pass.found_spelled ready.toPlain _ mine.1 same ends fun dot => (undotted dot).2)
        intro empty
        have head := head_spelled found []
        rw [empty] at head
        cases head
      · rw [if_neg mine]
        refine replaceAll_append_of_none _ fun c tail inside =>
          found_none_of_unlike ready.toPlain names (fun dot => (undotted dot).1) (fun forms => ?_) inside
        cases same : alike pass.name found.name with
        | false => rfl
        | true =>
          have different : found.double ≠ pass.double := fun one => mine ⟨one, same⟩
          have single := forms.resolve_left different
          have double : found.double = true := by
            rw [single] at different
            exact Bool.of_not_eq_false different
          have replaced := ready.phase single found.name (ready.mine _ same)
          rw [double] at held
          rw [held] at replaced
          cases replaced

/-- A pass makes one more reference known. -/
theorem run_written (ready : Ready entries known pass) (chain : tokens.IsChain (Beside entries))
    (forms : ∀ next ∈ tokens, Wellformed next) :
    pass.run (tokens.flatMap (written known)) = tokens.flatMap (written (learn known pass)) := by
  induction tokens with
  | nil => rfl
  | cons token tokens ih =>
    rw [List.flatMap_cons, List.flatMap_cons, run_token ready chain forms,
      ih chain.tail fun next met => forms next (List.mem_cons_of_mem _ met)]

end

/-! ## All passes -/

/-- What some passes leave known: the value of the first of them that replaces the reference. -/
def knownOf (done : List Pass) : Known := fun double name =>
  (done.find? fun pass => pass.double = double && alike pass.name name).map Pass.value

theorem knownOf_append (done more : List Pass) (double : Bool) (name : List Char) :
    knownOf (done ++ more) double name = (knownOf done double name).or (knownOf more double name) := by
  rw [knownOf, List.find?_append, Option.map_or]
  rfl

theorem knownOf_concat (done : List Pass) (pass : Pass) : knownOf (done ++ [pass]) = learn (knownOf done) pass := by
  funext double name
  rw [knownOf_append, learn]
  refine congrArg _ ?_
  rw [knownOf, List.find?_singleton]
  by_cases mine : double = pass.double ∧ alike pass.name name = true
  · obtain ⟨rfl, same⟩ := mine
    rw [if_pos (by simpa using same), if_pos ⟨rfl, same⟩]
    rfl
  · have other : ¬ (decide (pass.double = double) && alike pass.name name) = true := by
      rw [Bool.and_eq_true, decide_eq_true_eq]
      exact fun both => mine ⟨both.1.symm, both.2⟩
    rw [if_neg other, if_neg mine]
    rfl

theorem knownOf_passesOf (form double : Bool) (entries : List (List Char × List Char)) (name : List Char) :
    knownOf (passesOf form entries) double name = if form = double then lookup entries name else none := by
  rw [knownOf, passesOf, List.find?_map, Option.map_map]
  split
  · rename_i same
    simp [same, lookup, Function.comp_def]
  · rename_i other
    simp [other, Function.comp_def]

theorem knownOf_passes (entries : List (List Char × List Char)) :
    knownOf (passes entries) = fun _ => lookup entries := by
  funext double name
  rw [passes, knownOf_append, knownOf_passesOf, knownOf_passesOf]
  cases double <;> simp

section

variable {entries : List (List Char × List Char)} {done : List Pass}
variable {todo : List Pass}

theorem lookup_of_known {more : List Pass} (split : done ++ more = passes entries) {value : List Char}
    (known : knownOf done double name = some value) : lookup entries name = some value := by
  have all := congrFun (congrFun (knownOf_passes entries) double) name
  rw [← split, knownOf_append, known] at all
  exact all.symm

variable {pass : Pass}

theorem double_of_mem_passesOf {form : Bool} (member : pass ∈ passesOf form entries) :
    pass.double = form ∧ (pass.name, pass.value) ∈ entries := by
  obtain ⟨entry, listed, rfl⟩ := List.mem_map.mp member
  exact ⟨rfl, listed⟩

/-- All passes of the double form come before one of the single. -/
theorem doubles_first {before after : List Pass} (split : before ++ pass :: after = passes entries)
    (single : pass.double = false) : passesOf true entries <+: before := by
  rcases List.append_eq_append_iff.mp split with ⟨more, doubles, rest⟩ | ⟨more, doubles, _⟩
  · cases more with
    | nil =>
      rw [doubles, List.append_nil]
    | cons other more =>
      obtain rfl : pass = other := (List.cons.inj rest).1
      have member : pass ∈ passesOf true entries :=
        doubles ▸ List.mem_append_right before List.mem_cons_self
      rw [(double_of_mem_passesOf member).1] at single
      cases single
  · exact ⟨more, doubles.symm⟩

theorem known_of_doubles (doubles : passesOf true entries <+: done) (defined : (lookup entries name).isSome = true) :
    (knownOf done true name).isSome = true := by
  obtain ⟨more, rfl⟩ := doubles
  rw [knownOf_append, knownOf_passesOf, if_pos rfl, Option.isSome_or, defined]
  rfl

/-- The names are names the expressions read as they stand, and the values hold no ampersand. -/
structure Sound (entries : List (List Char × List Char)) : Prop where
  names : ∀ entry ∈ entries, isName entry.1 = true
  plain : ∀ entry ∈ entries, '$' ∉ entry.1
  clean : ∀ entry ∈ entries, '&' ∉ entry.2

theorem ready_of_split (sound : Sound entries) (split : done ++ pass :: todo = passes entries) :
    Ready entries (knownOf done) pass := by
  have listed : (pass.name, pass.value) ∈ entries := by
    have member : pass ∈ passes entries := split ▸ List.mem_append_right done List.mem_cons_self
    rcases List.mem_append.mp member with inside | inside
    · exact (double_of_mem_passesOf inside).2
    · exact (double_of_mem_passesOf inside).2
  refine
    { names := sound.names _ listed
      plain := sound.plain _ listed
      part := fun double name value known => lookup_of_known split known
      clean := fun name value found => ?_
      doubleFirst := fun name other known defined => ?_
      phase := fun single name defined => known_of_doubles (doubles_first split single) defined
      mine := fun name same => ?_ }
  · obtain ⟨entry, first, rfl⟩ := Option.map_eq_some_iff.mp found
    exact sound.clean _ (List.mem_of_find?_eq_some first)
  · obtain ⟨value, found⟩ := Option.isSome_iff_exists.mp known
    obtain ⟨earlier, first, _⟩ := Option.map_eq_some_iff.mp found
    have single : earlier.double = false := by
      have holds := List.find?_some first
      rw [Bool.and_eq_true] at holds
      simpa using holds.1
    obtain ⟨before, after, rfl⟩ := List.append_of_mem (List.mem_of_find?_eq_some first)
    rw [List.append_assoc, List.cons_append] at split
    exact known_of_doubles ((doubles_first split single).trans (List.prefix_append before _)) defined
  · rw [lookup, Option.isSome_map, List.find?_isSome]
    exact ⟨_, listed, same⟩

theorem foldl_run_written (sound : Sound entries) {tokens : List Token} (chain : tokens.IsChain (Beside entries))
    (forms : ∀ next ∈ tokens, Wellformed next) (split : done ++ todo = passes entries) :
    todo.foldl (fun body pass => pass.run body) (tokens.flatMap (written (knownOf done))) =
      tokens.flatMap (written fun _ => lookup entries) := by
  induction todo generalizing done with
  | nil =>
    rw [List.append_nil] at split
    rw [List.foldl_nil, split, knownOf_passes]
  | cons pass todo ih =>
    rw [List.foldl_cons, run_written (ready_of_split sound split) chain forms, ← knownOf_concat]
    exact ih (by rw [List.append_assoc]; exact split)

/-- No reference of the text is changed by what is written, or stands, beside it. -/
def Steady (entries : List (List Char × List Char)) (text : List Char) : Prop :=
  (references.tokens text).IsChain fun token next => apart entries token next = true

/-- One pass after the other is one substitution. -/
theorem foldl_passes (sound : Sound entries) (steady : Steady entries text) :
    (passes entries).foldl (fun body pass => pass.run body) text = simultaneous entries text := by
  have chain : (references.tokens text).IsChain (Beside entries) := by
    have follows := follows_tokens text
    unfold Steady at steady
    generalize references.tokens text = tokens at follows steady
    induction follows with
    | nil => exact .nil
    | singleton token => exact .singleton token
    | cons_cons first _ ih =>
      obtain ⟨beside, later⟩ := List.isChain_cons_cons.mp steady
      exact .cons_cons ⟨first, beside⟩ (ih later)
  have start : (references.tokens text).flatMap (written (knownOf [])) = text := by
    conv_rhs => rw [← Scanner.flatMap_tokens references text]
    refine congrArg (fun each => List.flatMap each _) (funext fun token => ?_)
    obtain ⟨kind, spelled⟩ := token
    cases kind with
    | none => rfl
    | some found => rfl
  conv_lhs => rw [← start]
  exact foldl_run_written sound chain (wellformed_tokens text) rfl

end

/-! ## Names in a script -/

theorem isName_of_defineLine {line : List Char} {found : List Char × List Char} (here : defineLine line = some found) :
    isName found.1 = true := by
  unfold defineLine at here
  dsimp only at here
  split at here
  · cases here
  · rename_i behind _
    split at here
    · rename_i starts
      rw [Bool.and_eq_true] at starts
      cases here
      have names : named false (behind.dropWhile isBlank) = some
          ⟨false, (behind.dropWhile isBlank).takeWhile isNameChar, ((behind.dropWhile isBlank).drop
            ((behind.dropWhile isBlank).takeWhile isNameChar).length).head? = some '.'⟩ := if_pos starts.2
      exact isName_of_named names
    · cases here

theorem isName_of_mem_values (named : ∀ given ∈ overrides, isName given.1 = true) :
    ∀ entry ∈ (values text overrides).entries, isName entry.1 = true := by
  intro entry listed
  rcases Dict.mem_of_mem_update listed with earlier | given
  · rcases Dict.mem_of_mem_update earlier with empty | defined
    · cases empty
    · obtain ⟨found, inside, rfl⟩ := List.mem_map.mp defined
      obtain ⟨line, _, here⟩ := List.mem_filterMap.mp inside
      exact isName_of_alike (alike_upper found.1) (isName_of_defineLine here)
  · obtain ⟨source, inside, rfl⟩ := List.mem_map.mp given
    exact isName_of_alike (alike_upper source.1) (named source inside)

theorem lookup_eq_some_iff (distinct : (entries.map fun entry => entry.1.map fold).Nodup) {value : List Char} :
    lookup entries name = some value ↔ ∃ entry ∈ entries, alike entry.1 name = true ∧ entry.2 = value := by
  constructor
  · intro found
    obtain ⟨entry, first, rfl⟩ := Option.map_eq_some_iff.mp found
    have same := List.find?_some first
    exact ⟨entry, List.mem_of_find?_eq_some first, same, rfl⟩
  · rintro ⟨entry, listed, same, rfl⟩
    have some_found : (entries.find? fun entry => alike entry.1 name).isSome = true :=
      List.find?_isSome.mpr ⟨entry, listed, same⟩
    obtain ⟨first, here⟩ := Option.isSome_iff_exists.mp some_found
    have first_same := List.find?_some here
    have one : first = entry := List.inj_on_of_nodup_map distinct (List.mem_of_find?_eq_some here) listed
      ((alike_iff.mp first_same).trans (alike_iff.mp same).symm)
    rw [lookup, here, one]
    rfl

/-- The order of the entries is of no matter where no two names are alike. -/
theorem lookup_perm {others : List (List Char × List Char)} (same : others.Perm entries)
    (distinct : (entries.map fun entry => entry.1.map fold).Nodup) : lookup others = lookup entries := by
  funext name
  refine Option.ext fun value => ?_
  rw [lookup_eq_some_iff distinct, lookup_eq_some_iff ((same.map _).nodup_iff.mpr distinct)]
  simp only [same.mem_iff]

/-! ## A script with its definitions -/

theorem set_ne_nil (dict : Dict (List Char) (List Char)) (key value : List Char) : (dict.set key value).entries ≠ [] := by
  intro empty
  have member : key ∈ (dict.set key value).entries.map Prod.fst := by
    rw [Dict.mem_keys_iff, Dict.get?_set, if_pos rfl]
    rfl
  rw [empty] at member
  cases member

theorem update_ne_nil {dict : Dict (List Char) (List Char)} (stated : dict.entries ≠ [] ∨ entries ≠ []) :
    (dict.update entries).entries ≠ [] := by
  induction entries generalizing dict with
  | nil => exact stated.resolve_right fun none => none rfl
  | cons entry entries ih => exact ih (.inl (set_ne_nil dict entry.1 entry.2))

/-- A script that defines nothing has no lines dropped. -/
theorem dropDefines_of_no_values (none_defined : (values text overrides).entries = []) : dropDefines text = text := by
  have no_lines : ∀ line ∈ text.splitOn '\n', defineLine line = none := by
    intro line listed
    by_contra found
    obtain ⟨definition, here⟩ := Option.ne_none_iff_exists'.mp found
    have member : definition ∈ definitions text := List.mem_filterMap.mpr ⟨line, listed, here⟩
    refine update_ne_nil (.inl (update_ne_nil (.inr ?_))) none_defined
    exact List.ne_nil_of_mem (List.mem_map_of_mem member)
  have same : ((text.splitOn '\n').map fun line => if (defineLine line).isSome then [] else line) = text.splitOn '\n' := by
    conv_rhs => rw [← List.map_id (text.splitOn '\n')]
    refine List.map_congr_left fun line listed => ?_
    rw [no_lines line listed]
    rfl
  rw [dropDefines, same]
  exact List.intercalate_splitOn '\n'

/-- What a script becomes: as it stands where nothing is defined, and else its other lines with every reference
replaced at once, stripped. -/
def substituted (text : List Char) (overrides : List (List Char × List Char)) : List Char :=
  let entries := (values text overrides).entries
  if entries = [] then text else Text.stripChars (simultaneous entries (dropDefines text))

theorem expand_eq_substituted (sound : Sound (values text overrides).entries)
    (steady : Steady (values text overrides).entries (dropDefines text)) :
    expandSqlplusDefines text overrides = substituted text overrides := by
  unfold expandSqlplusDefines substituted
  dsimp only
  rw [foldl_passes sound steady]

/-- Where no name holds a dollar sign, no value an ampersand, and no reference is changed by what comes beside it, all
references are replaced at once, and the order of the definitions is of no matter. -/
theorem sqlplus_defines_simultaneous (text : List Char) (overrides : List (List Char × List Char))
    (named : ∀ given ∈ overrides, isName given.1 = true)
    (plain : ∀ entry ∈ (values text overrides).entries, '$' ∉ entry.1)
    (clean : ∀ entry ∈ (values text overrides).entries, '&' ∉ entry.2)
    (steady : Steady (values text overrides).entries (dropDefines text)) :
    expandSqlplusDefines text overrides = substituted text overrides ∧
      ∀ (other : List Char) (others : List (List Char × List Char)), dropDefines other = dropDefines text →
        (values other others).entries.Perm (values text overrides).entries →
        ((values text overrides).entries.map fun entry => entry.1.map fold).Nodup →
        expandSqlplusDefines other others = expandSqlplusDefines text overrides := by
  have sound : Sound (values text overrides).entries := ⟨isName_of_mem_values named, plain, clean⟩
  refine ⟨expand_eq_substituted sound steady, fun other others body same distinct => ?_⟩
  have lookups := lookup_perm same distinct
  have other_sound : Sound (values other others).entries :=
    ⟨fun entry listed => sound.names entry (same.mem_iff.mp listed),
      fun entry listed => plain entry (same.mem_iff.mp listed),
      fun entry listed => clean entry (same.mem_iff.mp listed)⟩
  have other_steady : Steady (values other others).entries (dropDefines other) := by
    rw [body]
    refine List.IsChain.imp (fun token next beside => ?_) steady
    unfold apart at beside ⊢
    rw [lookups]
    exact beside
  rw [expand_eq_substituted sound steady, expand_eq_substituted other_sound other_steady]
  unfold substituted
  dsimp only
  by_cases empty : (values text overrides).entries = []
  · have other_empty : (values other others).entries = [] := List.perm_nil.mp (empty ▸ same)
    rw [if_pos empty, if_pos other_empty, ← dropDefines_of_no_values empty, ← dropDefines_of_no_values other_empty,
      body]
  · have other_stated : (values other others).entries ≠ [] := fun none => empty (List.nil_perm.mp (none ▸ same))
    rw [if_neg empty, if_neg other_stated, simultaneous, simultaneous, lookups, body]

theorem sqlplus_defines_simultaneous_both_orders :
    expandSqlplusDefines "DEFINE a = 1\nDEF b x\nSELECT '&A', &&b..c, &d".toList [] =
        substituted "DEFINE a = 1\nDEF b x\nSELECT '&A', &&b..c, &d".toList [] ∧
      expandSqlplusDefines "DEF b x\nDEFINE a = 1\nSELECT '&A', &&b..c, &d".toList [] =
        expandSqlplusDefines "DEFINE a = 1\nDEF b x\nSELECT '&A', &&b..c, &d".toList [] :=
  have run := sqlplus_defines_simultaneous "DEFINE a = 1\nDEF b x\nSELECT '&A', &&b..c, &d".toList [] (by decide)
    (by decide) (by decide) (by unfold Steady; decide)
  ⟨run.1, run.2 "DEF b x\nDEFINE a = 1\nSELECT '&A', &&b..c, &d".toList [] (by decide) (by decide) (by decide)⟩

/-- A script is stripped and loses its `DEFINE` lines, and a value's own reference is replaced after it. -/
theorem define_lines_dropped :
    expandSqlplusDefines "DEFINE a = 1\nSELECT &a ".toList [] = "SELECT 1".toList ∧
      expandSqlplusDefines "SELECT &a".toList [("a".toList, "&b".toList), ("b".toList, "1".toList)] =
        "SELECT 1".toList ∧
      ¬ ∀ (text : List Char) (overrides : List (List Char × List Char)),
        (∀ given ∈ overrides, isName given.1 = true) →
        (∀ entry ∈ (values text overrides).entries, '&' ∉ entry.2) →
        expandSqlplusDefines text overrides = simultaneous (values text overrides).entries text := by
  refine ⟨by decide, by decide, fun claimed => ?_⟩
  have kept := claimed "DEFINE a = 1\nSELECT &a ".toList [] (by decide) (by decide)
  exact absurd kept (by decide)

end DbaBrain.Lib.SqlplusDefines
