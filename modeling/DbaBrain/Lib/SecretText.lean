import DbaBrain.Foundation.Replacing
import DbaBrain.Foundation.Shell
import DbaBrain.Foundation.Text

/-!
# Command lines shown without their passphrases

A line about to be shown has what follows a key flag, and what a key variable is
assigned, hidden.  Of a line whose arguments are each quoted for the shell this
hides a passphrase that is one piece of the line, and no other.
-/

namespace DbaBrain.Lib.SecretText

open DbaBrain.Foundation.Replacing DbaBrain.Foundation.Shell
open DbaBrain.Foundation.Text (isSpace)

/-! ## What is hidden -/

/-- The flags a passphrase is given to. -/
inductive KeyFlag
  | key
  | keyBase64
  | keyUnderBase64
  deriving DecidableEq

def KeyFlag.text : KeyFlag → List Char
  | .key => ['-', '-', 'k', 'e', 'y']
  | .keyBase64 => ['-', '-', 'k', 'e', 'y', '-', 'b', 'a', 's', 'e', '6', '4']
  | .keyUnderBase64 => ['-', '-', 'k', 'e', 'y', '_', 'b', 'a', 's', 'e', '6', '4']

/-- The variables a passphrase is assigned to. -/
inductive KeyVariable
  | secretKey
  | keyBase64
  deriving DecidableEq

def KeyVariable.text : KeyVariable → List Char
  | .secretKey => ['D', 'B', 'A', 'B', 'R', 'A', 'I', 'N', '_', 'S', 'E', 'C', 'R', 'E', 'T', '_', 'K', 'E', 'Y']
  | .keyBase64 => ['D', 'B', 'A', 'B', 'R', 'A', 'I', 'N', '_', 'K', 'E', 'Y', '_', 'B', 'A', 'S', 'E', '6', '4']

/-- The flags as `--key(?:[-_]base64)?` tries them. -/
def keyFlags : List KeyFlag := [.keyBase64, .keyUnderBase64, .key]

def keyVariables : List KeyVariable := [.secretKey, .keyBase64]

def mask : List Char := ['*', '*', '*']

def quotedLength (quote : Char) : List Char → Option Nat
  | [] => none
  | c :: rest => if c = quote ∧ quote ∈ rest then some ((rest.takeWhile fun d => d ≠ quote).length + 2) else none

/-- The length of a value: a text in double or in single quotes, or all up to a space. -/
def valueLength (text : List Char) : Option Nat :=
  let bare := (text.takeWhile fun c => !isSpace c).length
  (quotedLength '"' text).or ((quotedLength '\'' text).or (if bare = 0 then none else some bare))

/-- `=|\\s+`; no value starts with a space, so fewer of them are never enough. -/
def separator : List Char → List Char
  | '=' :: _ => ['=']
  | text => text.takeWhile isSpace

/-- A flag at a place with its value, and what is put for it. -/
def flagAt (text : List Char) (flag : KeyFlag) : Option (Nat × List Char) :=
  let sep := separator (text.drop flag.text.length)
  if flag.text <+: text ∧ sep ≠ [] then
    (valueLength (text.drop (flag.text.length + sep.length))).map fun value =>
      (flag.text.length + sep.length + value - 1, flag.text ++ sep ++ mask)
  else none

/-- `_KEY_FLAG` at a place. -/
def foundFlag (_ : Option Char) (text : List Char) : Option (Nat × List Char) := keyFlags.findSome? (flagAt text)

def variableAt (text : List Char) (name : KeyVariable) : Option (Nat × List Char) :=
  if name.text ++ ['='] <+: text then
    (valueLength (text.drop (name.text.length + 1))).map fun value =>
      (name.text.length + value, name.text ++ '=' :: mask)
  else none

/-- `_KEY_VARIABLE` at a place, behind no word character. -/
def foundVariable (isWord : Char → Bool) (before : Option Char) (text : List Char) : Option (Nat × List Char) :=
  if before.any isWord then none else keyVariables.findSome? (variableAt text)

/-- `redact_key_arguments`; the word characters are letters, digits and the underscore. -/
def redactKeyArguments (isWord : Char → Bool) (text : List Char) : List Char :=
  substitute (foundVariable isWord) none (substitute foundFlag none text)

/-! ## Command lines -/

inductive Name
  | ofFlag (flag : KeyFlag)
  | ofVariable (assigned : KeyVariable)

def Name.text : Name → List Char
  | .ofFlag flag => flag.text
  | .ofVariable assigned => assigned.text

/-- A part of a command line: an argument that gives no key, a flag with its key as the next argument, or a key in the
argument that names it.  The keys are numbered. -/
inductive Part
  | word (text : List Char)
  | flag (flag : KeyFlag) (slot : Nat)
  | assigned (name : Name) (slot : Nat)

section Lines

variable (keys : Nat → List Char)

def Part.arguments : Part → List (List Char)
  | .word text => [text]
  | .flag given slot => [given.text, keys slot]
  | .assigned name slot => [name.text ++ '=' :: keys slot]

/-- `shlex.join`. -/
def shlexJoin : List (List Char) → List Char
  | [] => []
  | first :: others => quote first ++ others.flatMap fun argument => ' ' :: quote argument

def commandLine (parts : List Part) : List Char := shlexJoin (parts.flatMap (Part.arguments keys))

end Lines

/-- A key is named at a place: a flag with what parts it from a value, or a variable with what assigns it. -/
def isNamed (text : List Char) : Bool :=
  (keyFlags.any fun flag => flag.text.isPrefixOf text && separator (text.drop flag.text.length) ≠ []) ||
    keyVariables.any fun name => (name.text ++ ['=']).isPrefixOf text

/-- An argument that names no key, as it stands in a line with another behind it. -/
def namesNoKey (text : List Char) : Bool := (quote text ++ [' ']).tails.all fun rest => !isNamed rest

/-- The words of a line name no key. -/
def Plain (parts : List Part) : Prop := ∀ text, Part.word text ∈ parts → namesNoKey text = true

/-- A command line: an argument that names a key gives one. -/
structure Line where
  parts : List Part
  plain : Plain parts

/-- A key that has a flag's name at its end, which no flag before it in the key takes for its value. -/
def opensFlag : List Char → Bool
  | [] => false
  | c :: rest =>
      if keyFlags.any fun flag => c :: rest = flag.text then true
      else if keyFlags.any fun flag =>
          (flag.text ++ ['=']).isPrefixOf (c :: rest) && flag.text ++ ['='] ≠ c :: rest then
        false
      else opensFlag rest

/-- The key of a part is hidden: as an argument of its own it has no apostrophe; behind its name it is not empty and
needs no quotes, and a variable's, with another argument behind it, does not end in a flag. -/
def IsHidden (keys : Nat → List Char) (isLast : Bool) : Part → Prop
  | .word _ => True
  | .flag _ slot => '\'' ∉ keys slot
  | .assigned (.ofFlag _) slot => keys slot ≠ [] ∧ (keys slot).all isSafe = true
  | .assigned (.ofVariable _) slot =>
      keys slot ≠ [] ∧ (keys slot).all isSafe = true ∧ (isLast = true ∨ opensFlag (keys slot) = false)

def Hidden (keys : Nat → List Char) : List Part → Prop
  | [] => True
  | part :: parts => IsHidden keys parts.isEmpty part ∧ Hidden keys parts

/-! ## A line by its parts -/

def Part.lineText (keys : Nat → List Char) : Part → List Char
  | .word text => quote text
  | .flag given slot => given.text ++ ' ' :: quote (keys slot)
  | .assigned name slot => quote (name.text ++ '=' :: keys slot)

/-- What stands in a line from a part on, its blank with it. -/
def rest (keys : Nat → List Char) (parts : List Part) : List Char := parts.flatMap fun part => ' ' :: part.lineText keys

/-- What a line shows of a part. -/
def Part.shown : Part → List Char
  | .word text => quote text
  | .flag given _ => given.text ++ ' ' :: mask
  | .assigned name _ => name.text ++ '=' :: mask

def shownRest (parts : List Part) : List Char := parts.flatMap fun part => ' ' :: part.shown

/-- A text is at its end, or goes on behind a blank. -/
def Parted (text : List Char) : Prop := text = [] ∨ ∃ more, text = ' ' :: more

section Parts

variable {keys : Nat → List Char} {parts : List Part}

theorem parted_rest (keys : Nat → List Char) (parts : List Part) : Parted (rest keys parts) := by
  cases parts with
  | nil => exact Or.inl rfl
  | cons part parts => exact Or.inr ⟨_, rfl⟩

theorem quote_eq_self {text : List Char} (stated : text ≠ []) (safe : text.all isSafe = true) : quote text = text := by
  rw [quote, if_neg stated, if_pos safe]

theorem quote_flag (flag : KeyFlag) : quote flag.text = flag.text := by
  cases flag <;> decide

theorem rest_eq (keys : Nat → List Char) (parts : List Part) :
    rest keys parts = (parts.flatMap (Part.arguments keys)).flatMap fun argument => ' ' :: quote argument := by
  induction parts with
  | nil => rfl
  | cons part parts ih =>
    rw [rest, List.flatMap_cons, ← rest, ih, List.flatMap_cons, List.flatMap_append]
    congr 1
    cases part with
    | word text => simp [Part.lineText, Part.arguments]
    | flag given slot => simp [Part.lineText, Part.arguments, quote_flag]
    | assigned name slot => simp [Part.lineText, Part.arguments]

theorem blank_commandLine (keys : Nat → List Char) (stated : parts ≠ []) :
    ' ' :: commandLine keys parts = rest keys parts := by
  have some_argument : parts.flatMap (Part.arguments keys) ≠ [] := by
    obtain ⟨part, others, rfl⟩ := List.exists_cons_of_ne_nil stated
    cases part <;> simp [Part.arguments]
  obtain ⟨first, others, split⟩ := List.exists_cons_of_ne_nil some_argument
  rw [rest_eq, commandLine, split]
  rfl

end Parts

/-! ## Values -/

section Values

variable {text more : List Char}

def isBare (c : Char) : Bool := !isSpace c && !isQuote c

theorem toNat_of_isSafe {c : Char} (safe : isSafe c = true) : 32 < c.toNat ∧ c.toNat < 127 := by
  have listed : ("_@%+=:,./-".toList.all fun d => decide (32 < d.toNat ∧ d.toNat < 127)) = true := by decide +kernel
  unfold isSafe at safe
  simp only [Bool.or_eq_true, Bool.and_eq_true, decide_eq_true_eq, Char.le_def, UInt32.le_iff_toNat_le] at safe
  have same : c.val.toNat = c.toNat := rfl
  have letters : 'A'.val.toNat = 65 ∧ 'Z'.val.toNat = 90 ∧ 'a'.val.toNat = 97 ∧ 'z'.val.toNat = 122 :=
    ⟨rfl, rfl, rfl, rfl⟩
  have digits : '0'.val.toNat = 48 ∧ '9'.val.toNat = 57 := ⟨rfl, rfl⟩
  rcases safe with ((upper | lower) | digit) | sign
  · omega
  · omega
  · omega
  · exact of_decide_eq_true (List.all_eq_true.mp listed c sign)

theorem isBare_of_isSafe {c : Char} (safe : isSafe c = true) : isBare c = true := by
  obtain ⟨above, below⟩ := toNat_of_isSafe safe
  have unspaced : isSpace c = false := by
    simp only [isSpace, List.mem_cons, List.not_mem_nil, or_false, Bool.or_eq_false_iff, Bool.and_eq_false_iff,
      decide_eq_false_iff_not]
    omega
  rw [isBare, unspaced, (isSafe_plain safe).2.1]
  rfl

theorem takeWhile_parted (parted : Parted more) (whole : ∀ c ∈ text, isSpace c = false) :
    (text ++ more).takeWhile (fun c => !isSpace c) = text := by
  rw [List.takeWhile_append_of_pos fun c member => by simp [whole c member]]
  rcases parted with rfl | ⟨behind, rfl⟩
  · simp
  · simp [isSpace]

/-- A word of bare characters is a value up to what parts it. -/
theorem valueLength_bare (stated : text ≠ []) (bare : ∀ c ∈ text, isBare c = true) (parted : Parted more) :
    valueLength (text ++ more) = some text.length := by
  obtain ⟨c, others, rfl⟩ := List.exists_cons_of_ne_nil stated
  have whole : ∀ d ∈ c :: others, isSpace d = false := by
    intro d member
    have both := bare d member
    simp only [isBare, Bool.and_eq_true, Bool.not_eq_true'] at both
    exact both.1
  have unquoted : c ≠ '"' ∧ c ≠ '\'' := by
    have both := bare c List.mem_cons_self
    simp only [isBare, isQuote, Bool.and_eq_true, Bool.not_eq_true', Bool.or_eq_false_iff,
      decide_eq_false_iff_not] at both
    exact ⟨both.2.2, both.2.1⟩
  unfold valueLength
  rw [takeWhile_parted parted whole]
  simp [quotedLength, unquoted]

/-- Nothing is a value where a text is parted. -/
theorem valueLength_parted (parted : Parted more) : valueLength more = none := by
  rcases parted with rfl | ⟨behind, rfl⟩
  · rfl
  · simp [valueLength, quotedLength, isSpace]

theorem valueLength_quoted (inside : '\'' ∉ text) :
    valueLength ('\'' :: text ++ '\'' :: more) = some (text.length + 2) := by
  have closed : (text ++ '\'' :: more).takeWhile (fun d => decide (d ≠ '\'')) = text := by
    have whole : ∀ c ∈ text, decide (c ≠ '\'') = true := by
      intro c member
      refine decide_eq_true fun same => inside ?_
      rwa [same] at member
    rw [List.takeWhile_append_of_pos whole]
    simp
  unfold valueLength
  simp only [List.cons_append, quotedLength]
  rw [if_neg (by simp), if_pos (by simp), closed]
  rfl

theorem escaped_eq_self (inside : '\'' ∉ text) :
    text.flatMap (fun c => if c = '\'' then ['\'', '"', '\'', '"', '\''] else [c]) = text := by
  conv_rhs => rw [← List.flatMap_singleton' text]
  refine List.flatMap_congr fun c member => if_neg fun same => inside ?_
  rwa [same] at member

/-- What a shell quotes without an apostrophe is one value. -/
theorem valueLength_quote (inside : '\'' ∉ text) (parted : Parted more) :
    valueLength (quote text ++ more) = some (quote text).length := by
  unfold quote
  split_ifs with none safe
  · exact valueLength_quoted List.not_mem_nil
  · exact valueLength_bare none (fun c member => isBare_of_isSafe (List.all_eq_true.mp safe c member)) parted
  · rw [escaped_eq_self inside, List.append_assoc, List.singleton_append, valueLength_quoted inside]
    simp

/-- What a shell quotes with an apostrophe goes on behind the first piece. -/
theorem quote_of_apostrophe (inside : '\'' ∈ text) :
    ∃ front more, '\'' ∉ front ∧ quote text = '\'' :: front ++ '\'' :: '"' :: more := by
  obtain ⟨front, back, rfl, first⟩ := List.eq_append_cons_of_mem inside
  have unsafe_text : (front ++ '\'' :: back).all isSafe = false := by
    rw [List.all_eq_false]
    exact ⟨'\'', inside, by decide⟩
  refine ⟨front, '\'' :: '"' :: '\'' ::
    (back.flatMap fun c => if c = '\'' then ['\'', '"', '\'', '"', '\''] else [c]) ++ ['\''], first, ?_⟩
  rw [quote, if_neg (by simp), if_neg (by simp [unsafe_text]), List.flatMap_append, escaped_eq_self first,
    List.flatMap_cons]
  simp

theorem quote_eq_cons (text : List Char) : ∃ c others, quote text = c :: others ∧ isSpace c = false ∧ c ≠ '*' := by
  unfold quote
  split_ifs with none safe
  · exact ⟨_, _, rfl, rfl, by decide⟩
  · obtain ⟨c, others, rfl⟩ := List.exists_cons_of_ne_nil none
    have first : isSafe c = true := List.all_eq_true.mp safe c List.mem_cons_self
    have bare := isBare_of_isSafe first
    simp only [isBare, Bool.and_eq_true, Bool.not_eq_true'] at bare
    refine ⟨c, others, rfl, bare.1, ?_⟩
    rintro rfl
    exact absurd first (by decide)
  · exact ⟨_, _, rfl, rfl, by decide⟩

end Values

/-! ## Findings -/

section Findings

variable {text body more : List Char} {before : Option Char} {c : Char}

theorem separator_cons_ne_nil (c : Char) (text : List Char) :
    separator (c :: text) ≠ [] ↔ c = '=' ∨ isSpace c = true := by
  by_cases equals : c = '='
  · rw [equals]
    exact iff_of_true (List.cons_ne_nil _ _) (Or.inl rfl)
  · rw [separator.eq_2 _ fun tail same => equals (List.cons.inj same).1, or_iff_right equals]
    rw [List.takeWhile_cons]
    cases blank : isSpace c with
    | true => simp
    | false => simp

theorem flagAt_name (flag : KeyFlag) (parts : separator (c :: body) = [c]) :
    flagAt (flag.text ++ c :: body) flag =
      (valueLength body).map fun value => (flag.text.length + value, flag.text ++ c :: mask) := by
  have shift (value : Nat) : flag.text.length + 1 + value - 1 = flag.text.length + value := by omega
  unfold flagAt
  dsimp only
  rw [← List.drop_drop, List.drop_left, parts, if_pos ⟨List.prefix_append _ _, List.cons_ne_nil _ _⟩]
  simp only [List.length_singleton, List.drop_one, List.tail_cons, shift, List.append_assoc, List.singleton_append]

theorem flagAt_other {flag other : KeyFlag} (different : other ≠ flag) (parts : separator (c :: body) = [c]) :
    flagAt (flag.text ++ c :: body) other = none := by
  have no_name : c ≠ '-' ∧ c ≠ '_' := by
    constructor <;> rintro rfl <;> rw [separator] at parts <;> cases parts
  refine if_neg ?_
  rintro ⟨front, apart⟩
  cases flag <;> cases other <;> first
    | exact different rfl
    | exact apart rfl
    | simp only [KeyFlag.text, List.cons_append, List.nil_append, List.cons_prefix_cons] at front
      exact absurd front (by simp [no_name.1.symm, no_name.2.symm])

theorem foundFlag_name (flag : KeyFlag) (parts : separator (c :: body) = [c]) :
    foundFlag before (flag.text ++ c :: body) =
      (valueLength body).map fun value => (flag.text.length + value, flag.text ++ c :: mask) := by
  rw [← flagAt_name flag parts]
  unfold foundFlag keyFlags
  cases flag with
  | key =>
    simp only [List.findSome?_cons, List.findSome?_nil, flagAt_other (by decide : KeyFlag.keyBase64 ≠ .key) parts,
      flagAt_other (by decide : KeyFlag.keyUnderBase64 ≠ .key) parts]
    cases flagAt (KeyFlag.key.text ++ c :: body) .key <;> rfl
  | keyBase64 =>
    simp only [List.findSome?_cons, List.findSome?_nil, flagAt_other (by decide : KeyFlag.key ≠ .keyBase64) parts,
      flagAt_other (by decide : KeyFlag.keyUnderBase64 ≠ .keyBase64) parts]
    cases flagAt (KeyFlag.keyBase64.text ++ c :: body) .keyBase64 <;> rfl
  | keyUnderBase64 =>
    simp only [List.findSome?_cons, List.findSome?_nil, flagAt_other (by decide : KeyFlag.key ≠
      .keyUnderBase64) parts,
      flagAt_other (by decide : KeyFlag.keyBase64 ≠ .keyUnderBase64) parts]
    cases flagAt (KeyFlag.keyUnderBase64.text ++ c :: body) .keyUnderBase64 <;> rfl

theorem named_of_foundFlag {finding : Nat × List Char} (found : foundFlag before text = some finding) :
    ∃ flag : KeyFlag, ∃ behind, text = flag.text ++ behind ∧ separator behind ≠ [] ∧
      ∃ value, valueLength (behind.drop (separator behind).length) = some value ∧
        finding = (flag.text.length + (separator behind).length + value - 1,
          flag.text ++ separator behind ++ mask) := by
  obtain ⟨flag, -, here⟩ := List.exists_of_findSome?_eq_some found
  unfold flagAt at here
  dsimp only at here
  split_ifs at here with named
  obtain ⟨⟨behind, rfl⟩, parts⟩ := named
  rw [List.drop_left] at parts here
  rw [← List.drop_drop, List.drop_left] at here
  obtain ⟨value, valued, told⟩ := Option.map_eq_some_iff.mp here
  exact ⟨flag, behind, rfl, parts, value, valued, told.symm⟩

/-- A text without blanks stands before what a text is parted by. -/
theorem prefix_of_parted {name : List Char} (blankless : ' ' ∉ name) (parted : Parted more)
    (front : name <+: text ++ more) : name <+: text := by
  rcases parted with rfl | ⟨behind, rfl⟩
  · rwa [List.append_nil] at front
  · by_cases short : name.length ≤ text.length
    · exact List.prefix_of_prefix_length_le front (List.prefix_append _ _) short
    · have longer : text ++ [' '] <+: text ++ ' ' :: behind := by simp
      have inside : text ++ [' '] <+: name :=
        List.prefix_of_prefix_length_le longer front (by rw [List.length_append, List.length_singleton]; omega)
      exact absurd (inside.subset (by simp)) blankless

theorem blankless_flag (flag : KeyFlag) : ' ' ∉ flag.text := by
  cases flag <;> decide

theorem blankless_variable (name : KeyVariable) : ' ' ∉ name.text ++ ['='] := by
  cases name <;> decide

theorem foundFlag_of_unnamed (unnamed : isNamed (text ++ [' ']) = false) (parted : Parted more) :
    foundFlag before (text ++ more) = none := by
  rw [Option.eq_none_iff_forall_ne_some]
  intro finding found
  obtain ⟨flag, behind, split, parts, -⟩ := named_of_foundFlag found
  obtain ⟨own, rfl⟩ := prefix_of_parted (blankless_flag flag) parted ⟨behind, split.symm⟩
  rw [List.append_assoc, List.append_cancel_left_eq] at split
  have still : separator (own ++ [' ']) ≠ [] := by
    cases own with
    | nil => exact (separator_cons_ne_nil _ _).mpr (Or.inr rfl)
    | cons d own =>
      rw [← split, List.cons_append, separator_cons_ne_nil] at parts
      exact (separator_cons_ne_nil _ _).mpr parts
  have named : isNamed (flag.text ++ own ++ [' ']) = true := by
    unfold isNamed
    rw [Bool.or_eq_true]
    refine Or.inl (List.any_eq_true.mpr ⟨flag, by cases flag <;> decide, ?_⟩)
    rw [List.append_assoc, List.drop_left]
    simp [still]
  rw [unnamed] at named
  cases named

variable {isWord : Char → Bool}

theorem foundVariable_of_unnamed (unnamed : isNamed (text ++ [' ']) = false) (parted : Parted more) :
    foundVariable isWord before (text ++ more) = none := by
  unfold foundVariable
  split
  · rfl
  · rw [List.findSome?_eq_none_iff]
    intro name listed
    refine if_neg fun front => ?_
    have inside := prefix_of_parted (blankless_variable name) parted front
    have named : isNamed (text ++ [' ']) = true := by
      unfold isNamed
      rw [Bool.or_eq_true]
      exact Or.inr (List.any_eq_true.mpr ⟨name, listed, by simpa using inside.trans (List.prefix_append _ _)⟩)
    rw [unnamed] at named
    cases named

theorem variableAt_name (name : KeyVariable) : variableAt (name.text ++ '=' :: body) name =
    (valueLength body).map fun value => (name.text.length + value, name.text ++ '=' :: mask) := by
  unfold variableAt
  rw [if_pos ⟨body, by simp⟩, ← List.drop_drop, List.drop_left]
  rfl

theorem variableAt_other {name other : KeyVariable} (different : other ≠ name) :
    variableAt (name.text ++ '=' :: body) other = none := by
  refine if_neg fun front => ?_
  cases name <;> cases other <;> first
    | exact different rfl
    | simp only [KeyVariable.text, List.cons_append, List.nil_append, List.cons_prefix_cons] at front
      exact absurd front (by simp)

/-- A variable with what assigns it is found when there is a value, behind no word. -/
theorem foundVariable_name (name : KeyVariable) (apart : before.any isWord = false) :
    foundVariable isWord before (name.text ++ '=' :: body) =
      (valueLength body).map fun value => (name.text.length + value, name.text ++ '=' :: mask) := by
  rw [← variableAt_name name, foundVariable, if_neg (by rw [apart]; exact Bool.false_ne_true)]
  unfold keyVariables
  cases name with
  | secretKey =>
    simp only [List.findSome?_cons, List.findSome?_nil, variableAt_other (by decide : KeyVariable.keyBase64 ≠
      .secretKey)]
    cases variableAt (KeyVariable.secretKey.text ++ '=' :: body) .secretKey <;> rfl
  | keyBase64 =>
    simp only [List.findSome?_cons, List.findSome?_nil, variableAt_other (by decide : KeyVariable.secretKey ≠
      .keyBase64)]
    cases variableAt (KeyVariable.keyBase64.text ++ '=' :: body) .keyBase64 <;> rfl

theorem foundFlag_of_head (other : c ≠ '-') : foundFlag before (c :: text) = none := by
  rw [Option.eq_none_iff_forall_ne_some]
  intro finding found
  obtain ⟨flag, behind, split, -⟩ := named_of_foundFlag found
  refine other ?_
  cases flag <;> exact (List.cons.inj split).1

theorem foundVariable_of_head (other : c ≠ 'D') : foundVariable isWord before (c :: text) = none := by
  unfold foundVariable
  split
  · rfl
  · rw [List.findSome?_eq_none_iff]
    intro name _
    refine if_neg fun ⟨behind, front⟩ => other ?_
    cases name <;> exact (List.cons.inj front).1.symm

end Findings

/-! ## Flags hidden -/

/-- The first of the two passes. -/
def hideFlags (text : List Char) : List Char := substitute foundFlag none text

section Flags

variable {text key more : List Char} {before : Option Char}

theorem substitute_foundFlag (before : Option Char) (text : List Char) :
    substitute foundFlag before text = hideFlags text :=
  substitute_before_eq (fun _ _ _ => rfl) before none text

variable {c d : Char}

theorem hideFlags_cons (absent : foundFlag none (c :: text) = none) : hideFlags (c :: text) = c :: hideFlags text := by
  rw [hideFlags, substitute_cons_of_none absent, substitute_foundFlag]

/-- Text no flag begins in stands. -/
theorem hideFlags_dashless (dashless : '-' ∉ text) (more : List Char) :
    hideFlags (text ++ more) = text ++ hideFlags more := by
  induction text with
  | nil => rfl
  | cons c text ih =>
    rw [List.mem_cons, not_or] at dashless
    obtain ⟨other, others⟩ := dashless
    rw [List.cons_append, hideFlags_cons (foundFlag_of_head fun dash => other dash.symm), ih others]
    rfl

theorem parted_hideFlags (parted : Parted more) : Parted (hideFlags more) := by
  rcases parted with rfl | ⟨behind, rfl⟩
  · exact Or.inl rfl
  · exact Or.inr ⟨_, hideFlags_cons (foundFlag_of_head (by decide))⟩

theorem hideFlags_word (plain : namesNoKey text = true) (parted : Parted more) :
    hideFlags (quote text ++ more) = quote text ++ hideFlags more := by
  rw [hideFlags, substitute_append_of_none, substitute_foundFlag]
  intro first c tail split
  refine foundFlag_of_unnamed ?_ parted
  have unnamed := List.all_eq_true.mp plain (c :: tail ++ [' ']) (by
    rw [List.mem_tails, split, List.append_assoc]
    exact List.suffix_append _ _)
  simpa using unnamed

theorem foundFlag_safe (safe : key.all isSafe = true) (parted : Parted more) {finding : Nat × List Char}
    (found : foundFlag before (key ++ more) = some finding) :
    (∃ flag : KeyFlag, key = flag.text ∧ more ≠ []) ∨ ∃ flag : KeyFlag, ∃ value, value ≠ [] ∧
      key = flag.text ++ '=' :: value ∧ finding = (key.length - 1, flag.text ++ '=' :: mask) := by
  obtain ⟨flag, behind, split, parts, length, valued, told⟩ := named_of_foundFlag found
  obtain ⟨own, rfl⟩ := prefix_of_parted (blankless_flag flag) parted ⟨behind, split.symm⟩
  rw [List.append_assoc, List.append_cancel_left_eq] at split
  cases own with
  | nil =>
    refine Or.inl ⟨flag, List.append_nil _, ?_⟩
    rintro rfl
    rw [← split] at parts
    exact parts rfl
  | cons d own =>
    have each := List.all_eq_true.mp safe
    have bare (c : Char) (member : c ∈ d :: own) : isBare c = true :=
      isBare_of_isSafe (each c (List.mem_append_right _ member))
    have unspaced : isSpace d = false := by
      have both := bare d List.mem_cons_self
      simp only [isBare, Bool.and_eq_true, Bool.not_eq_true'] at both
      exact both.1
    rw [← split, List.cons_append, separator_cons_ne_nil, unspaced, or_iff_left Bool.false_ne_true] at parts
    subst parts
    have sep : separator behind = ['='] := by
      rw [← split]
      rfl
    rw [sep, ← split, List.cons_append, List.length_singleton, List.drop_one, List.tail_cons] at valued
    have stated : own ≠ [] := by
      rintro rfl
      rw [List.nil_append, valueLength_parted parted] at valued
      cases valued
    rw [valueLength_bare stated (fun c member => bare c (List.mem_cons_of_mem _ member)) parted,
      Option.some.injEq] at valued
    refine Or.inr ⟨flag, own, stated, rfl, ?_⟩
    rw [told, sep, ← valued, List.length_append, List.append_assoc, List.singleton_append]
    simp only [List.length_cons, List.length_nil, Prod.mk.injEq, and_true]
    omega

variable {value : List Char}

/-- A flag with a value makes a text no flag that is open at its end. -/
theorem takes_of_flag {flag : KeyFlag} (stated : value ≠ []) (split : key = flag.text ++ '=' :: value) :
    (keyFlags.any fun other => (other.text ++ ['=']).isPrefixOf key && other.text ++ ['='] ≠ key) = true := by
  refine List.any_eq_true.mpr ⟨flag, by cases flag <;> decide, ?_⟩
  rw [split, Bool.and_eq_true]
  constructor
  · simp [List.isPrefixOf_iff_prefix]
  · refine decide_eq_true fun same => stated ?_
    simpa using same.symm

theorem flag_of_takes (takes : (keyFlags.any fun other => (other.text ++ ['=']).isPrefixOf key &&
    other.text ++ ['='] ≠ key) = true) : ∃ flag : KeyFlag, ∃ value, value ≠ [] ∧ key = flag.text ++ '=' :: value := by
  obtain ⟨flag, -, both⟩ := List.any_eq_true.mp takes
  rw [Bool.and_eq_true, List.isPrefixOf_iff_prefix] at both
  obtain ⟨⟨value, rfl⟩, more⟩ := both
  refine ⟨flag, value, ?_, by simp⟩
  rintro rfl
  simp at more

/-- A text without quotes that opens no flag, or has nothing behind it, is made one without spaces and quotes. -/
theorem hideFlags_safe (safe : key.all isSafe = true) (parted : Parted more)
    (closed : more = [] ∨ opensFlag key = false) : ∃ left, (key ≠ [] → left ≠ []) ∧ (∀ c ∈ left, isBare c = true) ∧
      hideFlags (key ++ more) = left ++ hideFlags more := by
  induction key with
  | nil => exact ⟨[], fun stated => stated, fun c member => absurd member List.not_mem_nil, rfl⟩
  | cons c key ih =>
    have both := List.all_cons ▸ safe
    rw [Bool.and_eq_true] at both
    cases found : foundFlag none (c :: key ++ more) with
    | none =>
      have still : more = [] ∨ opensFlag key = false := by
        refine closed.imp_right fun shut => ?_
        rw [opensFlag] at shut
        split_ifs at shut with whole takes
        · obtain ⟨flag, value, stated, split⟩ := flag_of_takes takes
          have bare (d : Char) (member : d ∈ value) : isBare d = true := by
            refine isBare_of_isSafe (List.all_eq_true.mp safe d ?_)
            rw [split]
            exact List.mem_append_right _ (List.mem_cons_of_mem _ member)
          have there : foundFlag none (flag.text ++ '=' :: (value ++ more)) = _ := foundFlag_name flag rfl
          rw [split, List.append_assoc, List.cons_append, there, valueLength_bare stated bare parted] at found
          cases found
        · exact shut
      obtain ⟨left, -, bare, hides⟩ := ih both.2 still
      refine ⟨c :: left, fun _ => List.cons_ne_nil _ _, ?_, ?_⟩
      · exact List.forall_mem_cons.mpr ⟨isBare_of_isSafe both.1, bare⟩
      · have here : hideFlags (c :: key ++ more) = c :: hideFlags (key ++ more) := hideFlags_cons found
        rw [here, hides]
        rfl
    | some finding =>
      rcases foundFlag_safe safe parted found with ⟨flag, whole, behind⟩ | ⟨flag, value, stated, split, told⟩
      · rcases closed with none | shut
        · exact absurd none behind
        · rw [whole] at shut
          cases flag <;> exact absurd shut (by decide)
      · refine ⟨flag.text ++ '=' :: mask, fun _ => by simp, ?_, ?_⟩
        · exact List.all_eq_true.mp (by cases flag <;> decide +kernel)
        · rw [told] at found
          rw [hideFlags, substitute_append_of_found more (List.cons_ne_nil _ _) found, substitute_foundFlag]

theorem exists_valueLength (unspaced : isSpace c = false) (text : List Char) :
    ∃ value, valueLength (c :: text) = some value := by
  have some_bare : ((c :: text).takeWhile fun d => !isSpace d).length ≠ 0 := by simp [unspaced]
  unfold valueLength
  dsimp only
  rw [if_neg some_bare]
  cases quotedLength '"' (c :: text) with
  | some value => exact ⟨value, rfl⟩
  | none =>
    cases quotedLength '\'' (c :: text) with
    | some value => exact ⟨value, rfl⟩
    | none => exact ⟨_, rfl⟩

theorem exists_substitute_of_found {finding : Option Char → List Char → Option (Nat × List Char)} {length : Nat}
    {put : List Char} (here : finding before (c :: text) = some (length, put)) :
    ∃ behind, substitute finding before (c :: text) = put ++ behind := by
  rw [substitute, substituteFrom, here]
  exact ⟨_, rfl⟩

theorem flag_eq_cons (flag : KeyFlag) : ∃ others, flag.text = '-' :: others := by
  cases flag <;> exact ⟨_, rfl⟩

theorem separator_blank (unspaced : isSpace d = false) (more : List Char) : separator (' ' :: d :: more) = [' '] := by
  change (' ' :: d :: more).takeWhile isSpace = [' ']
  rw [List.takeWhile_cons_of_pos rfl, List.takeWhile_cons_of_neg (by rw [unspaced]; exact Bool.false_ne_true)]

theorem hideFlags_flag (flag : KeyFlag) (unspaced : isSpace d = false) (more : List Char) :
    ∃ behind, hideFlags (flag.text ++ ' ' :: d :: more) = flag.text ++ ' ' :: '*' :: behind := by
  obtain ⟨value, valued⟩ := exists_valueLength unspaced more
  have here : foundFlag none (flag.text ++ ' ' :: d :: more) = _ := foundFlag_name flag (separator_blank unspaced more)
  rw [valued] at here
  obtain ⟨others, split⟩ := flag_eq_cons flag
  rw [split, List.cons_append] at here ⊢
  obtain ⟨behind, hides⟩ := exists_substitute_of_found here
  exact ⟨'*' :: '*' :: behind, by rw [hideFlags, hides]; simp [mask]⟩

/-- A flag at the end of a text without quotes takes what is behind the blank after it. -/
theorem hideFlags_opens (safe : key.all isSafe = true) (opens : opensFlag key = true) (unspaced : isSpace d = false)
    (more : List Char) : ∃ behind, hideFlags (key ++ ' ' :: d :: more) = key ++ ' ' :: '*' :: behind := by
  induction key with
  | nil => cases opens
  | cons c key ih =>
    have both := List.all_cons ▸ safe
    rw [Bool.and_eq_true] at both
    rw [opensFlag] at opens
    split_ifs at opens with whole takes
    · obtain ⟨flag, -, same⟩ := List.any_eq_true.mp whole
      rw [of_decide_eq_true same]
      exact hideFlags_flag flag unspaced more
    · have absent : foundFlag none (c :: key ++ ' ' :: d :: more) = none := by
        rw [Option.eq_none_iff_forall_ne_some]
        intro finding found
        rcases foundFlag_safe safe (Or.inr ⟨_, rfl⟩) found with ⟨flag, same, -⟩ | ⟨flag, value, stated, split, -⟩
        · exact whole (List.any_eq_true.mpr ⟨flag, by cases flag <;> decide, decide_eq_true same⟩)
        · exact takes (takes_of_flag stated split)
      obtain ⟨behind, hides⟩ := ih both.2 opens
      have here : hideFlags (c :: key ++ ' ' :: d :: more) = c :: hideFlags (key ++ ' ' :: d :: more) :=
        hideFlags_cons absent
      exact ⟨behind, by rw [here, hides]; rfl⟩

theorem hideFlags_found (flag : KeyFlag) (parts : separator (c :: (value ++ more)) = [c])
    (valued : valueLength (value ++ more) = some value.length) :
    hideFlags (flag.text ++ c :: value ++ more) = flag.text ++ c :: mask ++ hideFlags more := by
  have here : foundFlag none (flag.text ++ c :: (value ++ more)) = _ := foundFlag_name flag parts
  have whole : flag.text ++ c :: (value ++ more) = flag.text ++ c :: value ++ more := by simp
  rw [valued, whole] at here
  have length : flag.text.length + value.length = (flag.text ++ c :: value).length - 1 := by simp
  rw [Option.map_some, length] at here
  rw [hideFlags, substitute_append_of_found more (by simp) here, substitute_foundFlag]

theorem hideFlags_argument (flag : KeyFlag) (inside : '\'' ∉ key) (parted : Parted more) :
    hideFlags (flag.text ++ ' ' :: quote key ++ more) = flag.text ++ ' ' :: mask ++ hideFlags more := by
  refine hideFlags_found flag ?_ (valueLength_quote inside parted)
  obtain ⟨d, others, split, unspaced, -⟩ := quote_eq_cons key
  rw [split]
  exact separator_blank unspaced (others ++ more)

theorem hideFlags_argument_of_apostrophe (flag : KeyFlag) (inside : '\'' ∈ key) (more : List Char) :
    ∃ behind, hideFlags (flag.text ++ ' ' :: quote key ++ more) = flag.text ++ ' ' :: mask ++ '"' :: behind := by
  obtain ⟨front, left, first, split⟩ := quote_of_apostrophe inside
  have pieces : flag.text ++ ' ' :: quote key ++ more =
      flag.text ++ ' ' :: ('\'' :: front ++ ['\'']) ++ '"' :: (left ++ more) := by
    rw [split]
    simp
  have valued : valueLength ('\'' :: front ++ ['\''] ++ '"' :: (left ++ more)) =
    some ('\'' :: front ++ ['\'']).length := by
    rw [List.append_assoc, List.singleton_append, valueLength_quoted first]
    simp
  rw [pieces, hideFlags_found flag (separator_blank rfl _) valued, hideFlags_cons (foundFlag_of_head (by decide))]
  exact ⟨_, rfl⟩

theorem hideFlags_value (flag : KeyFlag) (stated : key ≠ []) (safe : key.all isSafe = true) (parted : Parted more) :
    hideFlags (flag.text ++ '=' :: key ++ more) = flag.text ++ '=' :: mask ++ hideFlags more := by
  have bare (c : Char) (member : c ∈ key) : isBare c = true := isBare_of_isSafe (List.all_eq_true.mp safe c member)
  exact hideFlags_found flag rfl (valueLength_bare stated bare parted)

/-- A name without a value stands. -/
theorem hideFlags_name (name : Name) (parted : Parted more) :
    hideFlags (name.text ++ '=' :: more) = name.text ++ '=' :: hideFlags more := by
  have whole : name.text ++ '=' :: more = name.text ++ ['='] ++ more := by simp
  cases name with
  | ofVariable name =>
    rw [whole, hideFlags_dashless (by cases name <;> decide)]
    simp [Name.text]
  | ofFlag flag =>
    have safe : (flag.text ++ ['=']).all isSafe = true := by cases flag <;> decide +kernel
    rw [whole, hideFlags, substitute_append_of_none, substitute_foundFlag]
    · simp [Name.text]
    · intro first c tail split
      change flag.text ++ ['='] = first ++ c :: tail at split
      rw [split, List.all_append, Bool.and_eq_true] at safe
      rw [Option.eq_none_iff_forall_ne_some]
      intro finding found
      rcases foundFlag_safe safe.2 parted found with ⟨other, same, -⟩ | ⟨other, value, stated, same, -⟩
      · have last := congrArg List.getLast? split
        rw [same] at last
        cases other <;> simp [KeyFlag.text] at last
      · obtain ⟨value, last, rfl⟩ := (List.eq_nil_or_concat' value).resolve_left stated
        have pieces : first ++ c :: tail = first ++ (other.text ++ '=' :: value) ++ [last] := by
          rw [same]
          simp
        rw [pieces] at split
        have equals : '=' ∈ flag.text := by
          rw [(List.append_inj' split rfl).1]
          simp
        cases flag <;> exact absurd equals (by decide)

end Flags

/-! ## Variables hidden -/

section Variables

variable {isWord : Char → Bool} {text key more : List Char} {before : Option Char}

theorem substitute_variable_cons {c : Char} (absent : foundVariable isWord before (c :: text) = none) :
    substitute (foundVariable isWord) before (c :: text) = c :: substitute (foundVariable isWord) (some c) text :=
  substitute_cons_of_none absent

/-- Text no variable begins in stands. -/
theorem hideVariables_other (other : 'D' ∉ text) (more : List Char) :
    substitute (foundVariable isWord) before (text ++ more) =
      text ++ substitute (foundVariable isWord) (behind before text) more := by
  refine substitute_append_of_none text fun first c tail split => foundVariable_of_head ?_
  rintro rfl
  exact other (split ▸ by simp)

theorem hideVariables_word (plain : namesNoKey text = true) (parted : Parted more) :
    substitute (foundVariable isWord) before (quote text ++ more) =
      quote text ++ substitute (foundVariable isWord) (behind before (quote text)) more := by
  refine substitute_append_of_none _ fun first c tail split => foundVariable_of_unnamed ?_ parted
  have unnamed := List.all_eq_true.mp plain (c :: tail ++ [' ']) (by
    rw [List.mem_tails, split, List.append_assoc]
    exact List.suffix_append _ _)
  simpa using unnamed

/-- A variable and what it is assigned give way to the variable and the mask. -/
theorem hideVariables_value (name : KeyVariable) (apart : before.any isWord = false) (stated : key ≠ [])
    (bare : ∀ c ∈ key, isBare c = true) (parted : Parted more) :
    substitute (foundVariable isWord) before (name.text ++ '=' :: key ++ more) =
      name.text ++ '=' :: mask ++ substitute (foundVariable isWord) (behind before (name.text ++ '=' :: key)) more := by
  have here : foundVariable isWord before (name.text ++ '=' :: (key ++ more)) = _ := foundVariable_name name apart
  have whole : name.text ++ '=' :: (key ++ more) = name.text ++ '=' :: key ++ more := by simp
  have length : name.text.length + key.length = (name.text ++ '=' :: key).length - 1 := by simp
  rw [valueLength_bare stated bare parted, whole, Option.map_some, length] at here
  rw [substitute_append_of_found more (by simp) here]

variable (isWord before) in
/-- A name without a value stands. -/
theorem hideVariables_name (name : Name) (parted : Parted more) : ∃ before',
    substitute (foundVariable isWord) before (name.text ++ '=' :: more) =
      name.text ++ '=' :: substitute (foundVariable isWord) before' more := by
  have whole : name.text ++ '=' :: more = name.text ++ ['='] ++ more := by simp
  refine ⟨behind before (name.text ++ ['=']), ?_⟩
  cases name with
  | ofFlag flag =>
    rw [whole, hideVariables_other (by cases flag <;> decide)]
    simp [Name.text]
  | ofVariable name =>
    have once : 'D' ∉ (name.text ++ ['=']).tail := by cases name <;> decide
    rw [whole, substitute_append_of_none]
    · simp [Name.text]
    · intro first c tail split
      change name.text ++ ['='] = first ++ c :: tail at split
      cases first with
      | nil =>
        rw [List.nil_append] at split
        rw [← split, List.append_assoc, List.singleton_append]
        cases apart : before.any isWord with
        | true => exact if_pos apart
        | false =>
          have here : foundVariable isWord before (name.text ++ '=' :: more) = _ := foundVariable_name name apart
          rwa [valueLength_parted parted] at here
      | cons d first =>
        refine foundVariable_of_head ?_
        rintro rfl
        rw [split] at once
        exact once (by simp)

end Variables

/-! ## Lines shown -/

section Shown

variable {isWord : Char → Bool} {keys : Nat → List Char} {isLast : Bool} {part : Part} {parts : List Part}
  {more : List Char} {before : Option Char}

variable (before) in
theorem redacted_part (plain : ∀ text, part = .word text → namesNoKey text = true) (hidden : IsHidden keys isLast part)
    (parted : Parted more) (ends : isLast = true → more = []) (apart : before.any isWord = false) : ∃ before',
      substitute (foundVariable isWord) before (hideFlags (part.lineText keys ++ more)) =
        part.shown ++ substitute (foundVariable isWord) before' (hideFlags more) := by
  have later := parted_hideFlags parted
  cases part with
  | word text =>
    rw [Part.lineText, hideFlags_word (plain text rfl) parted, hideVariables_word (plain text rfl) later]
    exact ⟨_, rfl⟩
  | flag given slot =>
    rw [Part.lineText, hideFlags_argument given hidden parted,
      hideVariables_other (by cases given <;> decide)]
    exact ⟨_, rfl⟩
  | assigned name slot =>
    cases name with
    | ofFlag given =>
      obtain ⟨stated, safe⟩ := hidden
      have unquoted : quote (given.text ++ '=' :: keys slot) = given.text ++ '=' :: keys slot := by
        refine quote_eq_self (by simp) ?_
        rw [List.all_append, List.all_cons, safe]
        cases given <;> decide +kernel
      change ∃ before', substitute (foundVariable isWord) before
          (hideFlags (quote (given.text ++ '=' :: keys slot) ++ more)) =
        given.text ++ '=' :: mask ++ _
      rw [unquoted, hideFlags_value given stated safe parted, hideVariables_other (by cases given <;> decide)]
      exact ⟨_, rfl⟩
    | ofVariable name =>
      obtain ⟨stated, safe, closed⟩ := hidden
      have unquoted : quote (name.text ++ '=' :: keys slot) = (name.text ++ ['=']) ++ keys slot := by
        rw [quote_eq_self (by simp)]
        · simp
        · rw [List.all_append, List.all_cons, safe]
          cases name <;> decide +kernel
      obtain ⟨left, filled, bare, hides⟩ := hideFlags_safe safe parted (closed.imp_left ends)
      have whole : name.text ++ ['='] ++ (left ++ hideFlags more) =
          name.text ++ '=' :: left ++ hideFlags more := by
        simp
      change ∃ before', substitute (foundVariable isWord) before
          (hideFlags (quote (name.text ++ '=' :: keys slot) ++ more)) =
        name.text ++ '=' :: mask ++ _
      rw [unquoted, List.append_assoc, hideFlags_dashless (by cases name <;> decide), hides, whole,
        hideVariables_value name apart (filled stated) bare later]
      exact ⟨_, rfl⟩

theorem name_eq_cons (name : Name) : ∃ c others, name.text = c :: others ∧ (c = '-' ∨ c = 'D') := by
  cases name with
  | ofFlag flag => cases flag <;> exact ⟨_, _, rfl, Or.inl rfl⟩
  | ofVariable name => cases name <;> exact ⟨_, _, rfl, Or.inr rfl⟩

theorem lineText_eq_cons (keys : Nat → List Char) (part : Part) :
    ∃ c others, part.lineText keys = c :: others ∧ isSpace c = false := by
  cases part with
  | word text =>
    obtain ⟨c, others, split, unspaced, -⟩ := quote_eq_cons text
    exact ⟨c, others, split, unspaced⟩
  | flag given slot => cases given <;> exact ⟨_, _, rfl, rfl⟩
  | assigned name slot =>
    obtain ⟨c, others, split, unspaced, -⟩ := quote_eq_cons (name.text ++ '=' :: keys slot)
    exact ⟨c, others, split, unspaced⟩

theorem shown_eq_cons (part : Part) : ∃ c others, part.shown = c :: others ∧ c ≠ '*' := by
  cases part with
  | word text =>
    obtain ⟨c, others, split, -, other⟩ := quote_eq_cons text
    exact ⟨c, others, split, other⟩
  | flag given slot => cases given <;> exact ⟨_, _, rfl, by decide⟩
  | assigned name slot =>
    obtain ⟨c, others, split, first⟩ := name_eq_cons name
    refine ⟨c, others ++ '=' :: mask, by rw [Part.shown, split]; rfl, ?_⟩
    rcases first with rfl | rfl <;> decide

theorem parted_shownRest (parts : List Part) : Parted (shownRest parts) := by
  cases parts with
  | nil => exact Or.inl rfl
  | cons part parts => exact Or.inr ⟨_, rfl⟩

variable (isWord before) in
theorem parted_hideVariables (parted : Parted more) : Parted (substitute (foundVariable isWord) before more) := by
  rcases parted with rfl | ⟨behind, rfl⟩
  · exact Or.inl rfl
  · exact Or.inr ⟨_, substitute_variable_cons (foundVariable_of_head (by decide))⟩

theorem not_parted {c : Char} {text : List Char} (other : c ≠ ' ') : ¬ Parted (c :: text) := by
  rintro (none | ⟨behind, split⟩)
  · cases none
  · exact other (List.cons.inj split).1

/-- A variable's key that opens a flag hides the argument behind it. -/
theorem redacted_opens_ne (name : KeyVariable) {slot : Nat} {next : Part} (apart : before.any isWord = false)
    (stated : keys slot ≠ []) (safe : (keys slot).all isSafe = true) (opens : opensFlag (keys slot) = true) :
    substitute (foundVariable isWord) before
        (hideFlags (name.text ++ '=' :: keys slot ++ rest keys (next :: parts))) ≠
      name.text ++ '=' :: mask ++ shownRest (next :: parts) := by
  obtain ⟨d, others, split, unspaced⟩ := lineText_eq_cons keys next
  have bare (c : Char) (member : c ∈ keys slot) : isBare c = true :=
    isBare_of_isSafe (List.all_eq_true.mp safe c member)
  have pieces : name.text ++ '=' :: keys slot ++ rest keys (next :: parts) =
      (name.text ++ ['=']) ++ (keys slot ++ ' ' :: d :: (others ++ rest keys parts)) := by
    change name.text ++ '=' :: keys slot ++ ' ' :: (next.lineText keys ++ rest keys parts) = _
    rw [split]
    simp
  obtain ⟨left, hides⟩ := hideFlags_opens safe opens unspaced (others ++ rest keys parts)
  have whole : name.text ++ ['='] ++ (keys slot ++ ' ' :: '*' :: left) =
      name.text ++ '=' :: keys slot ++ ' ' :: '*' :: left := by
    simp
  rw [pieces, hideFlags_dashless (by cases name <;> decide), hides, whole,
    hideVariables_value name apart stated bare (Or.inr ⟨_, rfl⟩), ne_eq, List.append_cancel_left_eq,
    substitute_variable_cons (foundVariable_of_head (by decide)),
      substitute_variable_cons (foundVariable_of_head (by decide))]
  intro same
  obtain ⟨c, tail, first, other⟩ := shown_eq_cons next
  have second := (List.cons.inj same).2
  change _ = next.shown ++ shownRest parts at second
  rw [first] at second
  exact other (List.cons.inj second).1.symm

/-- A part whose key is not hidden is shown otherwise. -/
theorem redacted_part_ne (exposed : ¬ IsHidden keys parts.isEmpty part) (apart : before.any isWord = false) :
    substitute (foundVariable isWord) before (hideFlags (part.lineText keys ++ rest keys parts)) ≠
      part.shown ++ shownRest parts := by
  cases part with
  | word text => exact absurd trivial exposed
  | flag given slot =>
    obtain ⟨left, hides⟩ := hideFlags_argument_of_apostrophe given (not_not.mp exposed) (rest keys parts)
    rw [Part.lineText, Part.shown, hides, hideVariables_other (by cases given <;> decide), ne_eq,
      List.append_cancel_left_eq,
      substitute_variable_cons (foundVariable_of_head (by decide))]
    intro same
    exact not_parted (by decide) (same ▸ parted_shownRest parts)
  | assigned name slot =>
    obtain ⟨c, others, first, named⟩ := name_eq_cons name
    by_cases safe : (keys slot).all isSafe = true
    · have all_safe : (name.text ++ '=' :: keys slot).all isSafe = true := by
        rw [List.all_append, List.all_cons, safe]
        cases name with
        | ofFlag flag => cases flag <;> decide +kernel
        | ofVariable name => cases name <;> decide +kernel
      rw [Part.lineText, Part.shown, quote_eq_self (by simp) all_safe]
      by_cases empty : keys slot = []
      · have whole : name.text ++ ['='] ++ rest keys parts = name.text ++ '=' :: rest keys parts := by simp
        obtain ⟨before', shows⟩ := hideVariables_name isWord before name (parted_hideFlags (parted_rest keys parts))
        have cancel : name.text ++ '=' :: mask ++ shownRest parts =
            name.text ++ '=' :: (mask ++ shownRest parts) := by
          simp
        rw [empty, whole, hideFlags_name name (parted_rest keys parts), shows, cancel, ne_eq,
          List.append_cancel_left_eq]
        intro same
        have parted := parted_hideVariables isWord before' (parted_hideFlags (parted_rest keys parts))
        rw [(List.cons.inj same).2] at parted
        exact not_parted (by decide) parted
      · cases name with
        | ofFlag flag => exact absurd ⟨empty, safe⟩ exposed
        | ofVariable name =>
          cases parts with
          | nil => exact absurd ⟨empty, safe, Or.inl rfl⟩ exposed
          | cons next parts =>
            have opens : opensFlag (keys slot) = true := by
              by_contra shut
              exact exposed ⟨empty, safe, Or.inr (Bool.eq_false_of_not_eq_true shut)⟩
            exact redacted_opens_ne name apart empty safe opens
    · have quoted : ∃ left, quote (name.text ++ '=' :: keys slot) = '\'' :: left := by
        rw [quote, if_neg (by simp), if_neg]
        · exact ⟨_, rfl⟩
        · rw [List.all_append, List.all_cons]
          simp [safe]
      obtain ⟨left, split⟩ := quoted
      rw [Part.lineText, Part.shown, split, List.cons_append, hideFlags_cons (foundFlag_of_head (by decide)),
        substitute_variable_cons (foundVariable_of_head (by decide)), first]
      intro same
      have head := (List.cons.inj same).1
      rcases named with rfl | rfl <;> exact absurd head (by decide)

/-- A line shows none of its keys where they are hidden, and is shown otherwise where one is not. -/
theorem redacted_rest_iff (blank : isWord ' ' = false) (plain : Plain parts) (before : Option Char) :
    substitute (foundVariable isWord) before (hideFlags (rest keys parts)) = shownRest parts ↔ Hidden keys parts := by
  induction parts generalizing before with
  | nil => exact iff_of_true rfl trivial
  | cons part parts ih =>
    have split : rest keys (part :: parts) = ' ' :: (part.lineText keys ++ rest keys parts) := rfl
    have shown : shownRest (part :: parts) = ' ' :: (part.shown ++ shownRest parts) := rfl
    rw [split, shown, hideFlags_cons (foundFlag_of_head (by decide)),
      substitute_variable_cons (foundVariable_of_head (by decide)), List.cons_inj_right, Hidden]
    by_cases hidden : IsHidden keys parts.isEmpty part
    · have ends : parts.isEmpty = true → rest keys parts = [] := by
        intro none
        rw [List.isEmpty_iff.mp none]
        rfl
      obtain ⟨before', shows⟩ := redacted_part (some ' ') (fun text same => plain text (same ▸ List.mem_cons_self))
        hidden (parted_rest keys parts) ends blank
      rw [shows, List.append_cancel_left_eq, and_iff_right hidden]
      exact ih (fun text member => plain text (List.mem_cons_of_mem _ member)) before'
    · exact iff_of_false (redacted_part_ne hidden blank) fun both => hidden both.1

/-- A blank before a text is no word, as nothing before it is none. -/
theorem hideVariables_blank (blank : isWord ' ' = false) (text : List Char) :
    substitute (foundVariable isWord) (some ' ') text = substitute (foundVariable isWord) none text := by
  cases text with
  | nil => rfl
  | cons c text =>
    have apart : (some ' ').any isWord = (none : Option Char).any isWord := blank
    rw [substitute, substitute, substituteFrom, substituteFrom, foundVariable, apart]
    rfl

/-- A line is shown without its keys exactly when they are hidden. -/
theorem redacted_iff (blank : isWord ' ' = false) (plain : Plain parts) (stated : parts ≠ []) :
    ' ' :: redactKeyArguments isWord (commandLine keys parts) = shownRest parts ↔ Hidden keys parts := by
  have whole : ' ' :: redactKeyArguments isWord (commandLine keys parts) =
      substitute (foundVariable isWord) none (hideFlags (rest keys parts)) := by
    rw [← blank_commandLine keys stated, hideFlags_cons (foundFlag_of_head (by decide)),
      substitute_variable_cons (foundVariable_of_head (by decide)), hideVariables_blank blank]
    rfl
  rw [whole]
  exact redacted_rest_iff blank plain none

/-- Of keys with hidden ones among them, a line is shown the same for all exactly when all of them are hidden. -/
theorem redacted_alike_iff (blank : isWord ' ' = false) (line : Line) (fillings : Set (Nat → List Char))
    (some_hidden : ∃ keys ∈ fillings, Hidden keys line.parts) :
    (∀ first ∈ fillings, ∀ second ∈ fillings, redactKeyArguments isWord (commandLine first line.parts) =
        redactKeyArguments isWord (commandLine second line.parts)) ↔
      ∀ keys ∈ fillings, Hidden keys line.parts := by
  by_cases stated : line.parts = []
  · rw [stated]
    exact iff_of_true (fun _ _ _ _ => rfl) fun _ _ => trivial
  · constructor
    · obtain ⟨hidden_keys, listed, hidden⟩ := some_hidden
      intro alike keys member
      rw [← redacted_iff blank line.plain stated, alike keys member hidden_keys listed]
      exact (redacted_iff blank line.plain stated).mpr hidden
    · intro all_hidden first first_member second second_member
      have shown_first := (redacted_iff blank line.plain stated).mpr (all_hidden first first_member)
      have shown_second := (redacted_iff blank line.plain stated).mpr (all_hidden second second_member)
      exact (List.cons.inj (shown_first.trans shown_second.symm)).2

/-- A line that starts a program with a key. -/
def daemonLine : Line where
  parts := [.word "daemon".toList, .flag .keyBase64 0]
  plain := by
    intro text member
    obtain rfl : text = "daemon".toList := by simpa using member
    decide +kernel

theorem spaces_are_hidden :
    redactKeyArguments Char.isAlphanum (commandLine (fun _ => "two words".toList) daemonLine.parts) =
      redactKeyArguments Char.isAlphanum (commandLine (fun _ => "plain".toList) daemonLine.parts) := by
  refine (redacted_alike_iff rfl daemonLine {fun _ => "two words".toList, fun _ => "plain".toList}
    ⟨fun _ => "plain".toList, Or.inr rfl, ?_⟩).mpr ?_ _ (Or.inl rfl) _ (Or.inr rfl)
  · exact ⟨trivial, (by decide : '\'' ∉ "plain".toList), trivial⟩
  · rintro keys (rfl | rfl)
    · exact ⟨trivial, (by decide : '\'' ∉ "two words".toList), trivial⟩
    · exact ⟨trivial, (by decide : '\'' ∉ "plain".toList), trivial⟩

/-- What stands behind an apostrophe of a passphrase is shown. -/
theorem apostrophe_survives : ¬ ∀ first second : List Char,
    redactKeyArguments Char.isAlphanum (shlexJoin ["--key".toList, first]) =
      redactKeyArguments Char.isAlphanum (shlexJoin ["--key".toList, second]) := by
  intro alike
  exact absurd (alike "it's mine".toList "plain".toList) (by decide +kernel)

end Shown

end DbaBrain.Lib.SecretText
