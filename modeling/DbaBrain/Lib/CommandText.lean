import DbaBrain.Foundation.Shell
import DbaBrain.Lib.ModuleHeaders

/-!
# A command written on a line and read again

A line is the command and its arguments.  The last argument stands as it is; one
before it is quoted where splitting would not give it back.  A line is read by
splitting it, or with the text behind some arguments as it stands.
-/

namespace DbaBrain.Lib.CommandText

open DbaBrain.Foundation DbaBrain.Foundation.Text
open DbaBrain.Lib.ModuleHeaders (lowered)

/-! ## Reading -/

/-- `split`. -/
def words (text : List Char) : List (List Char) := (text.splitOnP isSpace).filter fun word => word ≠ []

def splitCommandTokens (text : List Char) : List (List Char) :=
  match Shell.split (stripChars text) with
  | .ok tokens => tokens
  | .error _ => words (stripChars text)

def isCommandChar (c : Char) : Bool := ('a' ≤ c && c ≤ 'z') || ('0' ≤ c && c ≤ '9') || c = '_'

/-- Every run of some characters as one underscore. -/
def squeeze (passes : Char → Bool) : Bool → List Char → List Char
  | _, [] => []
  | inRun, c :: rest =>
      if passes c then if inRun then squeeze passes true rest else '_' :: squeeze passes true rest
      else c :: squeeze passes false rest

def trim (passes : Char → Bool) (text : List Char) : List Char :=
  ((text.dropWhile passes).reverse.dropWhile passes).reverse

def normalizeCommandText (value : List Char) : List Char :=
  let text := (lowered (stripChars value)).dropWhile fun c => c = '/'
  let text := squeeze (fun c => !isCommandChar c) false text
  let text := squeeze (fun c => c = '_') false text
  trim (fun c => c = '_') text

def stripBotUsername (value : List Char) : List Char := (stripChars value).takeWhile fun c => c ≠ '@'

structure Command where
  commandKey : List Char
  args : List (List Char)
  deriving DecidableEq

def parseCommandMessage (text : List Char) : Command :=
  match splitCommandTokens text with
  | [] => ⟨[], []⟩
  | token :: args => ⟨normalizeCommandText (stripBotUsername token), args⟩

/-! ## Writing -/

def rstrip (text : List Char) : List Char := (text.reverse.dropWhile isSpace).reverse

def isOneToken (value : List Char) : Bool := splitCommandTokens value = [value]

/-- The arguments without the blank ones at the end. -/
def kept (args : List (List Char)) : List (List Char) := args.rdropWhile fun value => stripChars value = []

def renderCommandLine (commandText : List Char) (args : List (List Char)) : List Char :=
  let values := kept args
  let rendered := values.mapIdx fun index value =>
    if index + 1 = values.length ∨ isOneToken value = true then value else Shell.quote value
  rstrip ([' '].intercalate (('/' :: normalizeCommandText commandText) :: rendered))

/-! ## Reading with a tail -/

def readToken (text : List Char) : List Char × List Char :=
  match text with
  | [] => ([], [])
  | c :: rest =>
      if Shell.isQuote c ∧ c ∈ rest then (rest.takeWhile fun d => d ≠ c, (rest.dropWhile fun d => d ≠ c).tail)
      else (text.takeWhile fun d => !isSpace d, text.dropWhile fun d => !isSpace d)

/-- The arguments in front of the tail, and what is behind them. -/
def readHead : Nat → List Char → List (List Char) × List Char
  | 0, text => ([], text)
  | count + 1, text =>
      if text = [] then ([], [])
      else
        let read := readToken (text.dropWhile isSpace)
        if read.1 = [] ∧ read.2 = [] then ([], [])
        else
          let later := readHead count read.2
          (read.1 :: later.1, later.2)

def splitWithVerbatimTail (text : List Char) (tailPosition : Int) : List (List Char) :=
  let stripped := stripChars text
  if tailPosition < 1 then splitCommandTokens stripped
  else
    let read := readHead (tailPosition - 1).toNat (readToken (stripped.dropWhile isSpace)).2
    let tail := read.2.dropWhile isSpace
    read.1 ++ if tail = [] then [] else [tail]

/-! ## The command's word -/

section Word
variable {text : List Char}
variable {passes : Char → Bool} {c : Char}

theorem squeeze_of_none (inRun : Bool) (none : ∀ c ∈ text, passes c = false) : squeeze passes inRun text = text := by
  induction text generalizing inRun with
  | nil => rfl
  | cons c text ih =>
    obtain ⟨first, others⟩ := List.forall_mem_cons.mp none
    rw [squeeze, first, if_neg Bool.false_ne_true, ih false others]

theorem isCommandChar_squeeze (inRun : Bool) (text : List Char) :
    ∀ c ∈ squeeze (fun c => !isCommandChar c) inRun text, isCommandChar c = true := by
  induction text generalizing inRun with
  | nil => simp [squeeze]
  | cons c text ih =>
    cases letter : isCommandChar c with
    | true =>
      rw [squeeze, letter, Bool.not_true, if_neg Bool.false_ne_true]
      exact List.forall_mem_cons.mpr ⟨letter, ih false⟩
    | false =>
      rw [squeeze, letter, Bool.not_false, if_pos rfl]
      split
      · exact ih true
      · exact List.forall_mem_cons.mpr ⟨by decide, ih true⟩

/-- No underscore stands behind another. -/
def Apart (text : List Char) : Prop := text.IsChain fun first second => ¬ (first = '_' ∧ second = '_')

theorem squeeze_underscores (inRun : Bool) (text : List Char) :
    Apart (squeeze (fun c => c = '_') inRun text) ∧
      (inRun = true → ∀ c ∈ (squeeze (fun c => c = '_') inRun text).head?, c ≠ '_') ∧
        ∀ c ∈ squeeze (fun c => c = '_') inRun text, c ∈ text := by
  induction text generalizing inRun with
  | nil => exact ⟨.nil, fun _ => by simp [squeeze], by simp [squeeze]⟩
  | cons c text ih =>
    obtain ⟨apart, first, inside⟩ := ih true
    obtain ⟨apart_false, -, inside_false⟩ := ih false
    by_cases underscore : c = '_'
    · cases inRun with
      | true =>
        rw [squeeze, if_pos (decide_eq_true underscore), if_pos rfl]
        exact ⟨apart, first, fun d member => List.mem_cons_of_mem _ (inside d member)⟩
      | false =>
        rw [squeeze, if_pos (decide_eq_true underscore), if_neg Bool.false_ne_true]
        refine ⟨List.isChain_cons.mpr ⟨fun d head both => first rfl d head both.2, apart⟩,
          fun run => absurd run Bool.false_ne_true, ?_⟩
        refine List.forall_mem_cons.mpr ⟨by simp [underscore], fun d member => ?_⟩
        exact List.mem_cons_of_mem _ (inside d member)
    · rw [squeeze, if_neg (by simpa using underscore)]
      refine ⟨List.isChain_cons.mpr ⟨fun d _ both => underscore both.1, apart_false⟩, fun _ d head => ?_, ?_⟩
      · rw [List.head?_cons, Option.mem_some_iff] at head
        exact head ▸ underscore
      · refine List.forall_mem_cons.mpr ⟨List.mem_cons_self, fun d member => ?_⟩
        exact List.mem_cons_of_mem _ (inside_false d member)

/-- The text of a command as it is kept: letters, digits and single underscores between them. -/
structure Plain (text : List Char) : Prop where
  chars : ∀ c ∈ text, isCommandChar c = true
  apart : Apart text
  first : ∀ c ∈ text.head?, c ≠ '_'
  last : ∀ c ∈ text.getLast?, c ≠ '_'

theorem trim_apart (apart : Apart text) : Apart (trim (fun c => c = '_') text) := by
  have front : (text.dropWhile fun c => decide (c = '_')) <:+ text := List.dropWhile_suffix _
  have inner : trim (fun c => c = '_') text <+: text.dropWhile fun c => decide (c = '_') := by
    rw [trim, ← List.reverse_suffix, List.reverse_reverse]
    exact List.dropWhile_suffix _
  exact apart.infix (inner.isInfix.trans front.isInfix)

theorem trim_subset (passes : Char → Bool) (text : List Char) : ∀ c ∈ trim passes text, c ∈ text := by
  intro c member
  rw [trim, List.mem_reverse] at member
  exact (List.dropWhile_suffix _).subset (List.mem_reverse.mp ((List.dropWhile_suffix _).subset member))

theorem trim_ends (passes : Char → Bool) (text : List Char) :
    (∀ c ∈ (trim passes text).head?, passes c = false) ∧ ∀ c ∈ (trim passes text).getLast?, passes c = false := by
  have first (text : List Char) : ∀ c ∈ (text.dropWhile passes).head?, passes c = false := by
    intro c head
    have stops := List.head?_dropWhile_not passes text
    rw [Option.mem_def.mp head] at stops
    simpa using stops
  have inner : trim passes text <+: text.dropWhile passes := by
    rw [trim, ← List.reverse_suffix, List.reverse_reverse]
    exact List.dropWhile_suffix _
  refine ⟨fun c head => first text c ?_, fun c last => first (text.dropWhile passes).reverse c ?_⟩
  · obtain ⟨more, same⟩ := inner
    obtain ⟨others, spelled⟩ := List.head?_eq_some_iff.mp head
    rw [← same, spelled]
    rfl
  · rwa [trim, List.getLast?_reverse] at last

theorem plain_normalizeCommandText (value : List Char) : Plain (normalizeCommandText value) := by
  unfold normalizeCommandText
  dsimp only
  have letters := isCommandChar_squeeze false ((lowered (stripChars value)).dropWhile fun c => c = '/')
  generalize squeeze (fun c => !isCommandChar c) false ((lowered (stripChars value)).dropWhile fun c => c = '/') =
    text at letters ⊢
  obtain ⟨apart, -, inside⟩ := squeeze_underscores false text
  obtain ⟨first, last⟩ := trim_ends (fun c => c = '_') (squeeze (fun c => c = '_') false text)
  refine ⟨fun c member => letters c (inside c (trim_subset _ _ c member)), trim_apart apart, fun c head => ?_,
    fun c final => ?_⟩
  · exact of_decide_eq_false (first c head)
  · exact of_decide_eq_false (last c final)

/-- The characters of a command are of ASCII, in lower case, and no blanks. -/
theorem isCommandChar_plain (letter : isCommandChar c = true) :
    lowered [c] = [c] ∧ isSpace c = false ∧ c ≠ '/' ∧ c ≠ '@' := by
  have number : c.toNat = c.val.toNat := rfl
  have range : (97 ≤ c.toNat ∧ c.toNat ≤ 122) ∨ (48 ≤ c.toNat ∧ c.toNat ≤ 57) ∨ c.toNat = 95 := by
    simp only [isCommandChar, Bool.or_eq_true, Bool.and_eq_true, decide_eq_true_eq] at letter
    rcases letter with (lower | digit) | underscore
    · exact Or.inl lower
    · exact Or.inr (Or.inl digit)
    · exact Or.inr (Or.inr (underscore ▸ rfl))
  have other {d : Char} (apart : c.toNat ≠ d.toNat) : c ≠ d := fun same => apart (congrArg Char.toNat same)
  refine ⟨?_, ?_, other ?_, other ?_⟩
  · have lower : c.toLower = c := by
      refine dif_neg fun upper => ?_
      have low : 65 ≤ c.val.toNat := upper.1
      have high : c.val.toNat ≤ 90 := upper.2
      omega
    have kelvin : c.toNat ≠ (Char.ofNat 0x212A).toNat := by
      have value : (Char.ofNat 0x212A).toNat = 0x212A := by decide
      omega
    have dotted : c.toNat ≠ (Char.ofNat 0x130).toNat := by
      have value : (Char.ofNat 0x130).toNat = 0x130 := by decide
      omega
    rw [lowered, List.flatMap_singleton, if_neg (other kelvin), if_neg (other dotted), lower]
  · simp only [isSpace, Bool.or_eq_false_iff, Bool.and_eq_false_iff, decide_eq_false_iff_not, List.mem_cons,
      List.not_mem_nil, or_false]
    omega
  · have value : '/'.toNat = 47 := rfl
    omega
  · have value : '@'.toNat = 64 := rfl
    omega

theorem isSafe_of_isCommandChar (letter : isCommandChar c = true) : Shell.isSafe c = true := by
  simp only [isCommandChar, Bool.or_eq_true] at letter
  rcases letter with (lower | digit) | underscore
  · simp only [Shell.isSafe, lower, Bool.or_true, Bool.true_or]
  · simp only [Shell.isSafe, digit, Bool.or_true, Bool.true_or]
  · rw [of_decide_eq_true underscore]
    decide

theorem lowered_of_chars (chars : ∀ c ∈ text, lowered [c] = [c]) : lowered text = text := by
  induction text with
  | nil => rfl
  | cons c text ih =>
    obtain ⟨first, others⟩ := List.forall_mem_cons.mp chars
    rw [ModuleHeaders.lowered_cons, first, ih others]
    rfl

theorem squeeze_of_apart (apart : Apart text) : squeeze (fun c => c = '_') false text = text := by
  induction text with
  | nil => rfl
  | cons c text ih =>
    obtain ⟨next, later⟩ := List.isChain_cons.mp apart
    by_cases underscore : c = '_'
    · have unrun : squeeze (fun c => c = '_') true text = squeeze (fun c => c = '_') false text := by
        cases text with
        | nil => rfl
        | cons d text =>
          have other : d ≠ '_' := fun same => next d rfl ⟨underscore, same⟩
          rw [squeeze, squeeze, if_neg (by simpa using other), if_neg (by simpa using other)]
      rw [squeeze, if_pos (decide_eq_true underscore), if_neg Bool.false_ne_true, unrun, ih later, underscore]
    · rw [squeeze, if_neg (by simpa using underscore), ih later]

theorem dropWhile_eq_self (first : ∀ c ∈ text.head?, passes c = false) : text.dropWhile passes = text := by
  cases text with
  | nil => rfl
  | cons c text => exact List.dropWhile_cons_of_neg (by simp [first c rfl])

theorem stripChars_eq_self (first : ∀ c ∈ text.head?, isSpace c = false) (last : ∀ c ∈ text.getLast?, isSpace c = false) :
    stripChars text = text := by
  rw [stripChars, dropWhile_eq_self first, dropWhile_eq_self (by simpa using last), List.reverse_reverse]

theorem stripChars_word (plain : Plain text) : stripChars ('/' :: text) = '/' :: text := by
  refine stripChars_eq_self (fun c head => ?_) fun c last => ?_
  · rw [List.head?_cons, Option.mem_some_iff] at head
    rw [← head]
    decide
  · rcases List.mem_cons.mp (List.mem_of_mem_getLast? last) with rfl | inside
    · decide
    · exact (isCommandChar_plain (plain.chars c inside)).2.1

/-- A command's word is read as it was kept. -/
theorem normalizeCommandText_word (plain : Plain text) : normalizeCommandText ('/' :: text) = text := by
  have lower : lowered ('/' :: text) = '/' :: text := by
    refine lowered_of_chars (List.forall_mem_cons.mpr ⟨by decide, fun c inside => ?_⟩)
    exact (isCommandChar_plain (plain.chars c inside)).1
  have slashless : (('/' :: text).dropWhile fun c => decide (c = '/')) = text := by
    rw [List.dropWhile_cons_of_pos (by decide)]
    refine dropWhile_eq_self fun c head => decide_eq_false ?_
    exact (isCommandChar_plain (plain.chars c (List.mem_of_mem_head? head))).2.2.1
  unfold normalizeCommandText
  dsimp only
  have letters : squeeze (fun c => !isCommandChar c) false text = text :=
    squeeze_of_none false fun c inside => by rw [plain.chars c inside]; rfl
  rw [stripChars_word plain, lower, slashless, letters, squeeze_of_apart plain.apart, trim,
    dropWhile_eq_self fun c head => decide_eq_false (plain.first c head),
    dropWhile_eq_self fun c head => decide_eq_false (plain.last c (by simpa using head)), List.reverse_reverse]

theorem stripBotUsername_word (plain : Plain text) : stripBotUsername ('/' :: text) = '/' :: text := by
  rw [stripBotUsername, stripChars_word plain, List.takeWhile_eq_self_iff]
  refine List.forall_mem_cons.mpr ⟨by decide, fun c inside => decide_eq_true ?_⟩
  exact (isCommandChar_plain (plain.chars c inside)).2.2.2

theorem split_word (plain : Plain text) : Shell.split ('/' :: text) = .ok ['/' :: text] := by
  refine Shell.split_plain (List.forall_mem_cons.mpr ⟨by decide, fun c inside => Shell.isSafe_plain ?_⟩)
    (List.cons_ne_nil _ _)
  exact isSafe_of_isCommandChar (plain.chars c inside)

end Word

/-! ## The line -/

/-- An argument in front of the last, as it is written. -/
def written (value : List Char) : List Char := if isOneToken value = true then value else Shell.quote value

/-- What is in front of the last argument. -/
def front (commandText : List Char) (heads : List (List Char)) : List Char :=
  ('/' :: normalizeCommandText commandText) ++ ' ' :: heads.flatMap fun value => written value ++ [' ']

section Line

variable {commandText last : List Char} {args heads : List (List Char)}
variable {text : List Char}

theorem stripChars_eq_nil : stripChars text = [] ↔ ∀ c ∈ text, isSpace c = true := by
  constructor
  · intro none
    have inner : ∀ c ∈ text.dropWhile isSpace, isSpace c = true := by simpa [stripChars] using none
    rw [← List.dropWhile_eq_nil_iff, ← List.dropWhile_idempotent]
    exact List.dropWhile_eq_nil_iff.mpr inner
  · intro blank
    rw [stripChars, List.dropWhile_eq_nil_iff.mpr blank]
    rfl

theorem rstrip_append (before : List Char) (stated : stripChars text ≠ []) :
    rstrip (before ++ text) = before ++ rstrip text := by
  have some_letter : (text.reverse.dropWhile isSpace) ≠ [] := by
    intro none
    have blank : ∀ c ∈ text, isSpace c = true := by simpa using List.dropWhile_eq_nil_iff.mp none
    exact stated (stripChars_eq_nil.mpr blank)
  rw [rstrip, rstrip, List.reverse_append, List.dropWhile_append, if_neg (by simpa using some_letter),
    List.reverse_append, List.reverse_reverse]

theorem last_kept (split : kept args = heads ++ [last]) : stripChars last ≠ [] := by
  intro blank
  have some_kept : kept args ≠ [] := by simp [split]
  have final : (kept args).getLast some_kept = last := by simp [split]
  have stays := List.rdropWhile_last_not _ _ some_kept
  refine stays ?_
  change decide (stripChars ((kept args).getLast some_kept) = []) = true
  rw [final]
  exact decide_eq_true blank

theorem renderCommandLine_concat (split : kept args = heads ++ [last]) :
    renderCommandLine commandText args = front commandText heads ++ rstrip last := by
  have rendered : ((heads ++ [last]).mapIdx fun index value =>
      if index + 1 = (heads ++ [last]).length ∨ isOneToken value = true then value else Shell.quote value) =
        heads.map written ++ [last] := by
    rw [List.mapIdx_append]
    congr 1
    · refine List.ext_getElem? fun index => ?_
      rw [List.getElem?_mapIdx, List.getElem?_map]
      cases found : heads[index]? with
      | none => rfl
      | some value =>
        have inside : index < heads.length := (List.getElem?_eq_some_iff.mp found).1
        have inner : index + 1 ≠ (heads ++ [last]).length := by
          rw [List.length_append, List.length_singleton]
          omega
        rw [Option.map_some, Option.map_some, written]
        simp only [inner, false_or]
    · simp
  have joined (words : List (List Char)) (first : List Char) :
      [' '].intercalate (first :: (words ++ [last])) =
        first ++ ' ' :: (words.flatMap fun word => word ++ [' ']) ++ last := by
    induction words generalizing first with
    | nil => simp [List.intercalate]
    | cons word words ih =>
      rw [List.cons_append, List.intercalate_cons_of_ne_nil (by simp), ih]
      simp
  unfold renderCommandLine
  dsimp only
  rw [split, rendered, joined, ← rstrip_append _ (last_kept split)]
  simp [front, written, List.flatMap_map]

theorem renderCommandLine_nil (none : kept args = []) :
    renderCommandLine commandText args = '/' :: normalizeCommandText commandText := by
  have plain := plain_normalizeCommandText commandText
  unfold renderCommandLine
  dsimp only
  rw [none, List.mapIdx_nil, List.intercalate_singleton, rstrip, dropWhile_eq_self, List.reverse_reverse]
  intro c final
  rw [List.head?_reverse] at final
  rcases List.mem_cons.mp (List.mem_of_mem_getLast? final) with rfl | inside
  · decide
  · exact (isCommandChar_plain (plain.chars c inside)).2.1

theorem getLast_rstrip (text : List Char) : ∀ c ∈ (rstrip text).getLast?, isSpace c = false := by
  intro c last
  rw [rstrip, List.getLast?_reverse] at last
  have stops := List.head?_dropWhile_not isSpace text.reverse
  rw [Option.mem_def.mp last] at stops
  simpa using stops

theorem rstrip_ne_nil (stated : stripChars text ≠ []) : rstrip text ≠ [] := by
  intro none
  have blank : ∀ c ∈ text, isSpace c = true := by simpa [rstrip] using none
  exact stated (stripChars_eq_nil.mpr blank)

theorem stripChars_line (stated : stripChars last ≠ []) :
    stripChars (front commandText heads ++ rstrip last) = front commandText heads ++ rstrip last := by
  refine stripChars_eq_self (fun c head => ?_) fun c final => ?_
  · rw [front, List.cons_append, List.cons_append, List.head?_cons, Option.mem_some_iff] at head
    rw [← head]
    decide
  · rw [List.getLast?_append_of_ne_nil _ (rstrip_ne_nil stated)] at final
    exact getLast_rstrip last c final

/-- The blanks at the end and those at the front are taken off apart. -/
theorem dropWhile_rstrip (stated : stripChars text ≠ []) : (rstrip text).dropWhile isSpace = stripChars text := by
  have inner : stripChars (text.dropWhile isSpace) = stripChars text := by
    rw [stripChars, stripChars, List.dropWhile_idempotent]
  have cut : text.takeWhile isSpace ++ text.dropWhile isSpace = text := List.takeWhile_append_dropWhile
  have blank : ∀ c ∈ text.takeWhile isSpace, isSpace c = true := fun c member => List.mem_takeWhile_imp member
  calc (rstrip text).dropWhile isSpace
      = (rstrip (text.takeWhile isSpace ++ text.dropWhile isSpace)).dropWhile isSpace := by rw [cut]
    _ = (text.takeWhile isSpace ++ rstrip (text.dropWhile isSpace)).dropWhile isSpace := by
        rw [rstrip_append _ (by rwa [inner])]
    _ = (rstrip (text.dropWhile isSpace)).dropWhile isSpace := by rw [List.dropWhile_append_of_pos blank]
    _ = stripChars text := by
        rw [dropWhile_eq_self fun c head => ?_]
        · rfl
        · have stops := List.head?_dropWhile_not isSpace text
          have front : rstrip (text.dropWhile isSpace) <+: text.dropWhile isSpace := by
            rw [rstrip, ← List.reverse_suffix, List.reverse_reverse]
            exact List.dropWhile_suffix _
          obtain ⟨more, same⟩ := front
          obtain ⟨others, spelled⟩ := List.head?_eq_some_iff.mp head
          rw [← same, spelled] at stops
          simpa using stops

/-- An argument that is one token is read as it stands by the splitting itself. -/
def Whole (value : List Char) : Prop := isOneToken value = true → Shell.split value = .ok [value]

theorem split_written {value : List Char} (whole : Whole value) : Shell.split (written value) = .ok [value] := by
  unfold written
  split
  · next one => exact whole one
  · exact Shell.split_quote value

/-- A line with a last argument is read by splitting that argument alone. -/
theorem parseCommandMessage_concat (split : kept args = heads ++ [last]) (whole : ∀ value ∈ heads, Whole value)
    {tokens : List (List Char)} (read : Shell.split (rstrip last) = .ok tokens) :
    parseCommandMessage (renderCommandLine commandText args) =
      ⟨normalizeCommandText commandText, heads ++ tokens⟩ := by
  have plain := plain_normalizeCommandText commandText
  have each : ∀ pair ∈ heads.map (fun value => (written value, value)), Shell.split pair.1 = .ok [pair.2] := by
    refine List.forall_mem_map.mpr fun value member => ?_
    exact split_written (whole value member)
  have line : Shell.split (front commandText heads ++ rstrip last) =
      .ok (('/' :: normalizeCommandText commandText) :: (heads ++ tokens)) := by
    have behind := Shell.split_words each (rstrip last)
    rw [List.flatMap_map, List.map_map, read] at behind
    have spelled : front commandText heads ++ rstrip last = ('/' :: normalizeCommandText commandText) ++
        ' ' :: ((heads.flatMap fun value => written value ++ [' ']) ++ rstrip last) := by simp [front]
    rw [spelled, Shell.split_append (split_word plain), behind]
    simp [Except.map, Function.comp_def]
  rw [renderCommandLine_concat split, parseCommandMessage, splitCommandTokens, stripChars_line (last_kept split), line]
  simp only [stripBotUsername_word plain, normalizeCommandText_word plain]

theorem parseCommandMessage_nil (none : kept args = []) :
    parseCommandMessage (renderCommandLine commandText args) = ⟨normalizeCommandText commandText, []⟩ := by
  have plain := plain_normalizeCommandText commandText
  rw [renderCommandLine_nil none, parseCommandMessage, splitCommandTokens, stripChars_word plain, split_word plain]
  simp only [stripBotUsername_word plain, normalizeCommandText_word plain]

end Line

/-! ## The tail as it stands -/

section Tail

variable {commandText last value : List Char} {args before after : List (List Char)}

/-- An argument that is read in front of a tail: without blanks where it stands as it is, without apostrophes where it
is quoted. -/
def Legible (value : List Char) : Prop :=
  if isOneToken value = true then ∀ c ∈ value, isSpace c = false else '\'' ∉ value

theorem isSafe_unblank {c : Char} (safe : Shell.isSafe c = true) : isSpace c = false := by
  rw [← Bool.not_eq_true]
  intro blank
  have number : c.toNat = c.val.toNat := rfl
  have inside : (65 ≤ c.toNat ∧ c.toNat ≤ 90) ∨ (97 ≤ c.toNat ∧ c.toNat ≤ 122) ∨ (48 ≤ c.toNat ∧ c.toNat ≤ 57) ∨
      c ∈ "_@%+=:,./-".toList := by
    simp only [Shell.isSafe, Bool.or_eq_true, Bool.and_eq_true, decide_eq_true_eq] at safe
    rcases safe with ((upper | lower) | digit) | sign
    · exact Or.inl upper
    · exact Or.inr (Or.inl lower)
    · exact Or.inr (Or.inr (Or.inl digit))
    · exact Or.inr (Or.inr (Or.inr sign))
  rcases inside with upper | lower | digit | sign
  case inr.inr.inr =>
    have signs : ∀ c ∈ "_@%+=:,./-".toList, isSpace c = false := by simp [isSpace]
    exact Bool.false_ne_true ((signs c sign).symm.trans blank)
  all_goals
    simp only [isSpace, Bool.or_eq_true, Bool.and_eq_true, decide_eq_true_eq, List.mem_cons, List.not_mem_nil,
      or_false] at blank
    omega

/-- A word of safe characters is one token. -/
theorem isOneToken_of_safe (safe : ∀ c ∈ value, Shell.isSafe c = true) (filled : value ≠ []) :
    isOneToken value = true := by
  have stripped : stripChars value = value := by
    refine stripChars_eq_self (fun c head => ?_) fun c final => ?_
    · exact isSafe_unblank (safe c (List.mem_of_mem_head? head))
    · exact isSafe_unblank (safe c (List.mem_of_mem_getLast? final))
  have read := Shell.split_plain (fun c member => Shell.isSafe_plain (safe c member)) filled
  rw [isOneToken, splitCommandTokens, stripped, read]
  exact decide_eq_true rfl

/-- A quoted argument without apostrophes stands between two of them. -/
theorem quote_of_not_one (many : isOneToken value ≠ true) (plain : '\'' ∉ value) :
    Shell.quote value = '\'' :: (value ++ ['\'']) := by
  unfold Shell.quote
  split
  · next empty => simp [empty]
  · next filled =>
      split
      · next safe => exact absurd (isOneToken_of_safe (List.all_eq_true.mp safe) filled) many
      · have same : (value.flatMap fun c => if c = '\'' then ['\'', '"', '\'', '"', '\''] else [c]) = value := by
          calc (value.flatMap fun c => if c = '\'' then ['\'', '"', '\'', '"', '\''] else [c])
              = value.flatMap fun c => [c] := by
                refine List.flatMap_congr fun c member => if_neg fun (quotes : c = '\'') => plain (quotes ▸ member)
            _ = value := List.flatMap_singleton' value
        rw [same]
        rfl

/-- A legible argument is read back, and what stands behind it is left. -/
theorem readToken_written (whole : Whole value) (legible : Legible value) (more : List Char) :
    (written value ++ ' ' :: more).dropWhile isSpace = written value ++ ' ' :: more ∧
      readToken (written value ++ ' ' :: more) = (value, ' ' :: more) := by
  have blank : isSpace ' ' = true := by decide
  unfold written
  by_cases one : isOneToken value = true
  · rw [if_pos one]
    rw [Legible, if_pos one] at legible
    have read := whole one
    cases value with
    | nil => cases read
    | cons c text =>
      have unquoted := Shell.isQuote_head_of_split read
      have letters : ∀ d ∈ c :: text, (!isSpace d) = true := fun d member => by rw [legible d member]; rfl
      refine ⟨dropWhile_eq_self fun d head => ?_, ?_⟩
      · rw [List.cons_append, List.head?_cons, Option.mem_some_iff] at head
        exact head ▸ legible c List.mem_cons_self
      · have token : readToken (c :: text ++ ' ' :: more) =
            ((c :: text ++ ' ' :: more).takeWhile fun d => !isSpace d,
              (c :: text ++ ' ' :: more).dropWhile fun d => !isSpace d) := by
          rw [List.cons_append, readToken, unquoted, if_neg fun both => Bool.false_ne_true both.1]
        rw [token, List.takeWhile_append_of_pos letters, List.dropWhile_append_of_pos letters,
          List.takeWhile_cons_of_neg (by simp [blank]), List.dropWhile_cons_of_neg (by simp [blank]), List.append_nil]
  · rw [if_neg one]
    rw [Legible, if_neg one] at legible
    rw [quote_of_not_one one legible, List.cons_append, List.append_assoc, List.singleton_append]
    have letters : ∀ d ∈ value, decide (d ≠ '\'') = true :=
      fun d member => decide_eq_true fun quotes => legible (quotes ▸ member)
    refine ⟨List.dropWhile_cons_of_neg (by decide), ?_⟩
    rw [readToken, if_pos ⟨rfl, by simp⟩, List.takeWhile_append_of_pos letters, List.dropWhile_append_of_pos letters,
      List.takeWhile_cons_of_neg (by simp), List.dropWhile_cons_of_neg (by simp), List.append_nil, List.tail_cons]

/-- Legible arguments are read one after another. -/
theorem readHead_written (whole : ∀ value ∈ before, Whole value) (legible : ∀ value ∈ before, Legible value)
    (more : List Char) :
    readHead before.length (' ' :: ((before.flatMap fun value => written value ++ [' ']) ++ more)) =
      (before, ' ' :: more) := by
  induction before with
  | nil => rfl
  | cons value before ih =>
    obtain ⟨whole_first, whole_others⟩ := List.forall_mem_cons.mp whole
    obtain ⟨legible_first, legible_others⟩ := List.forall_mem_cons.mp legible
    obtain ⟨starts, token⟩ := readToken_written whole_first legible_first
      ((before.flatMap fun value => written value ++ [' ']) ++ more)
    have spelled : ((value :: before).flatMap fun value => written value ++ [' ']) ++ more =
        written value ++ ' ' :: ((before.flatMap fun value => written value ++ [' ']) ++ more) := by simp
    rw [spelled, List.length_cons, readHead, if_neg (List.cons_ne_nil _ _), List.dropWhile_cons_of_pos (by decide),
      starts, token]
    dsimp only
    rw [if_neg fun both => List.cons_ne_nil _ _ both.2, ih whole_others legible_others]

/-- With the text behind some arguments as it stands, these are read as the shell reads them, and the rest is what was
written behind them. -/
theorem splitWithVerbatimTail_concat (split : kept args = before ++ after ++ [last])
    (whole : ∀ value ∈ before, Whole value) (legible : ∀ value ∈ before, Legible value) :
    splitWithVerbatimTail (renderCommandLine commandText args) (before.length + 1) =
      before ++ [stripChars ((after.flatMap fun value => written value ++ [' ']) ++ last)] := by
  have plain := plain_normalizeCommandText commandText
  have stated := last_kept split
  set behind := (after.flatMap fun value => written value ++ [' ']) with behind_eq
  have filled : stripChars (behind ++ last) ≠ [] := by
    intro none
    have blank := stripChars_eq_nil.mp none
    exact stated (stripChars_eq_nil.mpr fun c member => blank c (List.mem_append_right _ member))
  have word : ∀ c ∈ '/' :: normalizeCommandText commandText, (!isSpace c) = true := by
    refine List.forall_mem_cons.mpr ⟨by decide, fun c inside => ?_⟩
    rw [(isCommandChar_plain (plain.chars c inside)).2.1]
    rfl
  have spelled : front commandText (before ++ after) ++ rstrip last = ('/' :: normalizeCommandText commandText) ++
      ' ' :: ((before.flatMap fun value => written value ++ [' ']) ++ rstrip (behind ++ last)) := by
    rw [rstrip_append _ stated]
    simp [front, behind_eq]
  have command : readToken ('/' :: normalizeCommandText commandText ++
      ' ' :: ((before.flatMap fun value => written value ++ [' ']) ++ rstrip (behind ++ last))) =
        ('/' :: normalizeCommandText commandText,
          ' ' :: ((before.flatMap fun value => written value ++ [' ']) ++ rstrip (behind ++ last))) := by
    rw [List.cons_append, readToken, if_neg fun both => absurd both.1 (by decide), ← List.cons_append,
      List.takeWhile_append_of_pos word, List.dropWhile_append_of_pos word, List.takeWhile_cons_of_neg (by decide),
      List.dropWhile_cons_of_neg (by decide), List.append_nil]
  have starts : (front commandText (before ++ after) ++ rstrip last).dropWhile isSpace =
      front commandText (before ++ after) ++ rstrip last := by
    rw [spelled, List.cons_append, List.dropWhile_cons_of_neg (by decide)]
  have later : (before.length + 1 - 1 : Int).toNat = before.length := by omega
  rw [renderCommandLine_concat split, splitWithVerbatimTail, if_neg (by omega), stripChars_line stated, starts, spelled,
    command, later, readHead_written whole legible]
  dsimp only
  rw [List.dropWhile_cons_of_pos (by decide), dropWhile_rstrip filled, if_neg filled]

end Tail

/-! ## Both readings -/

/-- A line is read as the command and the arguments it was written from: those in front of the last each as it was, the
last as the shell splits it, blank ones at the end not at all.  With a tail, the arguments in front of it are the same
and the tail is the text behind them. -/
theorem line_read_back (commandText : List Char) (args : List (List Char)) :
    (kept args = [] →
      parseCommandMessage (renderCommandLine commandText args) = ⟨normalizeCommandText commandText, []⟩) ∧
    ∀ (before after : List (List Char)) (last : List Char), kept args = before ++ after ++ [last] →
      (∀ value ∈ before ++ after, Whole value) →
        (∀ value ∈ before ++ after, Shell.split (written value) = .ok [value]) ∧
        (∀ tokens : List (List Char), Shell.split (rstrip last) = .ok tokens →
          parseCommandMessage (renderCommandLine commandText args) =
            ⟨normalizeCommandText commandText, before ++ after ++ tokens⟩) ∧
        ((∀ value ∈ before, Legible value) →
          splitWithVerbatimTail (renderCommandLine commandText args) (before.length + 1) =
            before ++ [stripChars ((after.flatMap fun value => written value ++ [' ']) ++ last)]) := by
  refine ⟨parseCommandMessage_nil, fun before after last split whole => ⟨?_, ?_, fun legible => ?_⟩⟩
  · exact fun value member => split_written (whole value member)
  · exact fun tokens read => parseCommandMessage_concat split whole read
  · exact splitWithVerbatimTail_concat split (fun value member => whole value (List.mem_append_left _ member)) legible

theorem query_read_back :
    let line := renderCommandLine "Run_Query".toList ["a b".toList, "7".toList, "yes".toList, [' ']]
    parseCommandMessage line = ⟨normalizeCommandText "Run_Query".toList, ["a b".toList, "7".toList, "yes".toList]⟩ ∧
      splitWithVerbatimTail line 2 = ["a b".toList, "7 yes".toList] ∧
      parseCommandMessage (renderCommandLine "Run_Query".toList [[' ']]) =
        ⟨normalizeCommandText "Run_Query".toList, []⟩ := by
  have split : kept ["a b".toList, "7".toList, "yes".toList, [' ']] =
      ["a b".toList] ++ ["7".toList] ++ ["yes".toList] := by decide +kernel
  have whole : ∀ value ∈ ["a b".toList] ++ ["7".toList], Whole value := by
    refine List.forall_mem_cons.mpr ⟨fun one => absurd one (by decide +kernel), ?_⟩
    exact List.forall_mem_cons.mpr ⟨fun _ => rfl, fun value none => absurd none List.not_mem_nil⟩
  have legible : ∀ value ∈ ["a b".toList], Legible value := by
    refine List.forall_mem_cons.mpr ⟨?_, fun value none => absurd none List.not_mem_nil⟩
    unfold Legible
    decide +kernel
  obtain ⟨-, parsed, tail⟩ := (line_read_back "Run_Query".toList _).2 _ _ _ split whole
  refine ⟨parsed ["yes".toList] rfl, (tail legible).trans (by decide +kernel), ?_⟩
  exact (line_read_back "Run_Query".toList [[' ']]).1 (by decide +kernel)

/-- The last argument is written as it was typed, so one with a blank is read as two. -/
theorem last_argument_splits : parseCommandMessage (renderCommandLine "q".toList ["a b".toList]) ≠
    ⟨"q".toList, ["a b".toList]⟩ := by
  decide +kernel

end DbaBrain.Lib.CommandText
