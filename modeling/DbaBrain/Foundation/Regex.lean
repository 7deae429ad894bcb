import Mathlib.Data.List.Basic

/-!
# Regular expressions of words

The part of Python's regular expressions that sets of words are written in: literal
characters, sequences, groups of alternatives and optional items.  An expression is a
text; it is read by one pass with the open groups on a stack.  Its meaning is what is
left of a text behind each match, in the order in which matches are tried.
-/

namespace DbaBrain.Foundation.Regex

inductive Pattern
  | empty
  | never
  | char (c : Char)
  | seq (first second : Pattern)
  | alt (first second : Pattern)
  | optional (inner : Pattern)

/-- What is left of a text behind each match at its front, in the order they are tried.  Characters are compared by what
`canon` makes of them: themselves, or what they are to IGNORECASE. -/
def ends (canon : Char → Char) : Pattern → List Char → List (List Char)
  | .empty, text => [text]
  | .never, _ => []
  | .char _, [] => []
  | .char c, d :: rest => if canon d = canon c then [rest] else []
  | .seq first second, text => (ends canon first text).flatMap (ends canon second)
  | .alt first second, text => ends canon first text ++ ends canon second text
  | .optional inner, text => ends canon inner text ++ [text]

/-- The leftmost match of a text: what is in front of it, the match tried first there, and what is behind it. -/
def search (canon : Char → Char) (pattern : Pattern) : List Char → Option (List Char × List Char × List Char)
  | [] => (ends canon pattern []).head?.map fun rest => ([], [], rest)
  | c :: text =>
      match ends canon pattern (c :: text) with
      | rest :: _ => some ([], (c :: text).take ((c :: text).length - rest.length), rest)
      | [] => (search canon pattern text).map fun found => (c :: found.1, found.2)

/-! ## Reading -/

/-- A group that is open: the alternatives closed in it and the items of the one being read, the last first. -/
structure Frame where
  closed : List Pattern
  items : List Pattern

def seqOf (items : List Pattern) : Pattern := items.foldr .seq .empty

def altOf (alternatives : List Pattern) : Pattern := alternatives.foldr .alt .never

namespace Frame

def new : Frame := ⟨[], []⟩

def push (frame : Frame) (item : Pattern) : Frame := ⟨frame.closed, item :: frame.items⟩

def close (frame : Frame) : Frame := ⟨seqOf frame.items.reverse :: frame.closed, []⟩

def pattern (frame : Frame) : Pattern := altOf frame.close.closed.reverse

end Frame

def isLetterOrDigit (c : Char) : Bool := ('A' ≤ c && c ≤ 'Z') || ('a' ≤ c && c ≤ 'z') || ('0' ≤ c && c ≤ '9')

/-- Behind an item these say how often it stands. -/
def isRepeat (c : Char) : Bool := c ∈ ['?', '*', '+', '{']

/-- The characters that are read as something else than themselves, other than those of a group and an option. -/
def isMeta (c : Char) : Bool := c ∈ ['.', '^', '$', '*', '+', '{', '}', '[', ']']

/-- Outside the opening of a group, behind a backslash, or behind `(`, `(?` or `(?!`. -/
inductive Mode
  | plain
  | escaped
  | opened
  | asked
  | denied

/-- A text as an expression, from a place on with a group being read and those around it. -/
def readFrom : Mode → Frame → List Frame → List Char → Option Pattern
  | .plain, frame, outer, [] => if outer.isEmpty then some frame.pattern else none
  | .escaped, _, _, [] => none
  | .opened, _, _, [] => none
  | .asked, _, _, [] => none
  | .denied, _, _, [] => none
  | .escaped, frame, outer, c :: rest =>
      if isLetterOrDigit c then none else readFrom .plain (frame.push (.char c)) outer rest
  | .opened, frame, outer, c :: rest => if c = '?' then readFrom .asked frame outer rest else none
  | .asked, frame, outer, c :: rest =>
      if c = ':' then readFrom .plain .new (frame :: outer) rest
      else if c = '!' then readFrom .denied frame outer rest
      else none
  | .denied, frame, outer, c :: rest =>
      if c = ')' then readFrom .plain (frame.push .never) outer rest else none
  | .plain, frame, outer, c :: rest =>
      if c = '\\' then readFrom .escaped frame outer rest
      else if c = '(' then readFrom .opened frame outer rest
      else if c = ')' then outer.head?.bind fun next => readFrom .plain (next.push frame.pattern) outer.tail rest
      else if c = '|' then readFrom .plain frame.close outer rest
      else if c = '?' then
        frame.items.head?.bind fun item =>
          if rest.head?.any isRepeat then none
          else readFrom .plain ⟨frame.closed, .optional item :: frame.items.tail⟩ outer rest
      else if isMeta c then none
      else readFrom .plain (frame.push (.char c)) outer rest

def read (text : List Char) : Option Pattern := readFrom .plain .new [] text

-- a group that is not closed is not read
example : read ['(', '?', ':', 'a'] = none := by simp [read, readFrom, isMeta]

/-- The characters `re.escape` puts a backslash in front of. -/
def isSpecial (c : Char) : Bool :=
  c ∈ "()[]{}?*+-|^$\\.&~# \t\n\r".toList || c = Char.ofNat 11 || c = Char.ofNat 12

/-- `re.escape` of one character. -/
def escape (c : Char) : List Char := if isSpecial c then ['\\', c] else [c]

/-! ## Texts that are read as items -/

/-- A text is read as some items, whatever stands in front of it and behind it. -/
def ReadsFirm (text : List Char) (items : List Pattern) : Prop :=
  ∀ frame outer rest, readFrom .plain frame outer (text ++ rest) =
    readFrom .plain ⟨frame.closed, items.reverse ++ frame.items⟩ outer rest

/-- A text is read as some items where no sign of repetition stands behind it. -/
def Reads (text : List Char) (items : List Pattern) : Prop :=
  ∀ frame outer rest, rest.head?.any isRepeat = false → readFrom .plain frame outer (text ++ rest) =
    readFrom .plain ⟨frame.closed, items.reverse ++ frame.items⟩ outer rest

section Reading

variable {text first second : List Char} {items others : List Pattern} {item : Pattern}

theorem ReadsFirm.reads (firm : ReadsFirm text items) : Reads text items :=
  fun frame outer rest _ => firm frame outer rest

theorem readsFirm_nil : ReadsFirm [] [] := fun _ _ _ => rfl

theorem ReadsFirm.append (firm : ReadsFirm first items) (reads : Reads second others) :
    Reads (first ++ second) (items ++ others) := by
  intro frame outer rest plain
  rw [List.append_assoc, firm, reads _ _ _ plain, List.reverse_append, List.append_assoc]

variable {c : Char}

theorem isLetterOrDigit_of_isSpecial (special : isSpecial c = true) : isLetterOrDigit c = false := by
  have signs : ("()[]{}?*+-|^$\\.&~# \t\n\r".toList.all fun d => !isLetterOrDigit d) = true := by decide +kernel
  simp only [isSpecial, Bool.or_eq_true, decide_eq_true_eq] at special
  rcases special with (sign | rfl) | rfl
  · simpa using List.all_eq_true.mp signs c sign
  · decide
  · decide

theorem isSpecial_of_isMeta (sign : isMeta c = true) : isSpecial c = true := by
  have signs : (['.', '^', '$', '*', '+', '{', '}', '[', ']'].all isSpecial) = true := by decide +kernel
  exact List.all_eq_true.mp signs c (of_decide_eq_true sign)

theorem readsFirm_escape (c : Char) : ReadsFirm (escape c) [.char c] := by
  intro frame outer rest
  unfold escape
  split
  · next special =>
      have sign := isLetterOrDigit_of_isSpecial special
      rw [List.cons_append, List.singleton_append, readFrom, if_pos rfl, readFrom, sign, if_neg Bool.false_ne_true]
      rfl
  · next plain =>
      have other {d : Char} (special : isSpecial d = true) : c ≠ d := fun same => plain (same ▸ special)
      have literal : isMeta c = false := by
        rw [← Bool.not_eq_true]
        exact fun sign => plain (isSpecial_of_isMeta sign)
      rw [List.singleton_append, readFrom, if_neg (other (by decide)), if_neg (other (by decide)),
        if_neg (other (by decide)), if_neg (other (by decide)), if_neg (other (by decide)), literal,
        if_neg Bool.false_ne_true]
      rfl

/-- An item that is read whatever stands behind it may be optional. -/
theorem ReadsFirm.optional (firm : ReadsFirm text [item]) : Reads (text ++ ['?']) [.optional item] := by
  intro frame outer rest plain
  rw [List.append_assoc, firm, List.singleton_append, readFrom, if_neg (by decide), if_neg (by decide),
    if_neg (by decide), if_neg (by decide), if_pos rfl]
  simp only [List.reverse_singleton, List.singleton_append, plain, Bool.false_eq_true, if_false]
  rfl

theorem readFrom_alternatives (branches : List (List Char × List Pattern)) (filled : branches ≠ [])
    (each : ∀ branch ∈ branches, Reads branch.1 branch.2) (closed : List Pattern) (next : Frame) (outer : List Frame)
    (rest : List Char) : readFrom .plain ⟨closed, []⟩ (next :: outer) (['|'].intercalate (branches.map Prod.fst) ++ ')' :: rest) =
      readFrom .plain (next.push (altOf (closed.reverse ++ branches.map fun branch => seqOf branch.2))) outer rest := by
  induction branches generalizing closed with
  | nil => exact absurd rfl filled
  | cons branch branches ih =>
    obtain ⟨first, later⟩ := List.forall_mem_cons.mp each
    cases branches with
    | nil =>
      rw [List.map_singleton, List.intercalate_singleton, first _ _ _ rfl, readFrom, if_neg (by decide),
        if_neg (by decide), if_pos rfl]
      simp [Frame.pattern, Frame.close]
    | cons second branches =>
      rw [List.map_cons, List.intercalate_cons_of_ne_nil (by simp), List.append_assoc, List.append_assoc,
        List.singleton_append, first _ _ _ rfl, readFrom, if_neg (by decide), if_neg (by decide),
        if_neg (by decide), if_pos rfl]
      have onward := ih (by simp) later (seqOf branch.2 :: closed)
      simpa [Frame.close] using onward

/-- A group is read as one item, whatever stands behind it. -/
theorem readsFirm_group {branches : List (List Char × List Pattern)} (filled : branches ≠ [])
    (each : ∀ branch ∈ branches, Reads branch.1 branch.2) :
    ReadsFirm ("(?:".toList ++ ['|'].intercalate (branches.map Prod.fst) ++ [')'])
      [altOf (branches.map fun branch => seqOf branch.2)] := by
  intro frame outer rest
  have opened := readFrom_alternatives branches filled each [] frame outer rest
  have spelled : "(?:".toList ++ ['|'].intercalate (branches.map Prod.fst) ++ [')'] ++ rest =
      '(' :: '?' :: ':' :: (['|'].intercalate (branches.map Prod.fst) ++ ')' :: rest) := by simp
  rw [spelled, readFrom, if_neg (by decide), if_pos rfl, readFrom, if_pos rfl, readFrom, if_pos rfl]
  exact opened

end Reading

/-! ## What they mean -/

section Meaning

variable {canon : Char → Char} {pattern : Pattern}

theorem ends_seqOf_cons (item : Pattern) (items : List Pattern) (text : List Char) :
    ends canon (seqOf (item :: items)) text = (ends canon item text).flatMap (ends canon (seqOf items)) := rfl

theorem ends_seqOf_singleton (item : Pattern) (text : List Char) :
    ends canon (seqOf [item]) text = ends canon item text :=
  List.flatMap_singleton' (ends canon item text)

theorem ends_altOf (alternatives : List Pattern) (text : List Char) :
    ends canon (altOf alternatives) text = alternatives.flatMap fun pattern => ends canon pattern text := by
  induction alternatives with
  | nil => rfl
  | cons pattern alternatives ih => exact congrArg (ends canon pattern text ++ ·) ih

variable {text : List Char}

/-- A text that is read whole as items and as others is so with one meaning. -/
theorem seqOf_eq_of_reads {items others : List Pattern} (reads : Reads text items) (reads_other : Reads text others) :
    seqOf items = seqOf others := by
  have both := (reads .new [] [] rfl).symm.trans (reads_other .new [] [] rfl)
  simp only [readFrom, List.isEmpty_nil, if_true, Option.some.injEq, Frame.pattern, Frame.close, Frame.new,
    List.append_nil, List.reverse_reverse, List.reverse_singleton, altOf, List.foldr_cons, List.foldr_nil,
    Pattern.alt.injEq, and_true] at both
  exact both

variable {rest : List Char}

/-- What is left behind a match is the text's own end. -/
theorem suffix_of_mem_ends (member : rest ∈ ends canon pattern text) : rest <:+ text := by
  induction pattern generalizing text rest with
  | empty =>
    rw [ends, List.mem_singleton] at member
    exact member ▸ List.suffix_rfl
  | never => cases member
  | char c =>
    cases text with
    | nil => cases member
    | cons d text =>
      rw [ends] at member
      split at member
      · rw [List.mem_singleton] at member
        exact member ▸ List.suffix_cons d text
      · cases member
  | seq first second ih_first ih_second =>
    obtain ⟨middle, inside, later⟩ := List.mem_flatMap.mp member
    exact (ih_second later).trans (ih_first inside)
  | alt first second ih_first ih_second =>
    rcases List.mem_append.mp member with inside | inside
    · exact ih_first inside
    · exact ih_second inside
  | optional inner ih =>
    rcases List.mem_append.mp member with inside | same
    · exact ih inside
    · exact (List.mem_singleton.mp same) ▸ List.suffix_rfl

theorem take_append_of_suffix (suffix : rest <:+ text) : text.take (text.length - rest.length) ++ rest = text := by
  obtain ⟨front, rfl⟩ := suffix
  rw [List.length_append, Nat.add_sub_cancel, List.take_left]

/-- Nothing matches before the place that is found, and what is found there is what is tried first. -/
theorem search_eq_some {before word after : List Char} (found : search canon pattern text = some (before, word, after)) :
    text = before ++ word ++ after ∧ (ends canon pattern (word ++ after)).head? = some after ∧
      ∀ front back, text = front ++ back → front.length < before.length → ends canon pattern back = [] := by
  induction text generalizing before with
  | nil =>
    rw [search, Option.map_eq_some_iff] at found
    obtain ⟨rest, head, same⟩ := found
    rw [Prod.mk.injEq, Prod.mk.injEq] at same
    obtain ⟨rfl, rfl, rfl⟩ := same
    have empty := List.suffix_nil.mp (suffix_of_mem_ends (List.mem_of_mem_head? head))
    subst empty
    exact ⟨rfl, head, fun _ _ _ short => absurd short (Nat.not_lt_zero _)⟩
  | cons c text ih =>
    rw [search] at found
    split at found
    · next rest others tried =>
        simp only [Option.some.injEq, Prod.mk.injEq] at found
        obtain ⟨rfl, rfl, rfl⟩ := found
        have cut := take_append_of_suffix (suffix_of_mem_ends (tried ▸ List.mem_cons_self))
        refine ⟨cut.symm, ?_, fun _ _ _ short => absurd short (Nat.not_lt_zero _)⟩
        rw [cut, tried, List.head?_cons]
    · next none =>
        obtain ⟨later, inner, same⟩ := Option.map_eq_some_iff.mp found
        rw [Prod.mk.injEq] at same
        obtain ⟨rfl, later_eq⟩ := same
        obtain ⟨spelled, tried, earlier⟩ := ih (later_eq ▸ inner :
          search canon pattern text = some (later.1, word, after))
        refine ⟨congrArg (c :: ·) spelled, tried, fun front back cut short => ?_⟩
        cases front with
        | nil => exact (List.nil_append back ▸ cut) ▸ none
        | cons d front => exact earlier front back (List.cons.inj cut).2 (Nat.lt_of_succ_lt_succ short)

theorem search_eq_none : search canon pattern text = none ↔
    ∀ front back, text = front ++ back → ends canon pattern back = [] := by
  induction text with
  | nil =>
    rw [search, Option.map_eq_none_iff, List.head?_eq_none_iff]
    refine ⟨fun none front back cut => ?_, fun none => none [] [] rfl⟩
    rw [(List.append_eq_nil_iff.mp cut.symm).2]
    exact none
  | cons c text ih =>
    rw [search]
    split
    · next rest others tried =>
        refine iff_of_false (by simp) fun none => ?_
        rw [none [] (c :: text) rfl] at tried
        cases tried
    · next none =>
        rw [Option.map_eq_none_iff, ih]
        refine ⟨fun later front back cut => ?_, fun all front back cut => all (c :: front) back (congrArg (c :: ·) cut)⟩
        cases front with
        | nil => exact (List.nil_append back ▸ cut) ▸ none
        | cons d front => exact later front back (List.cons.inj cut).2

end Meaning

end DbaBrain.Foundation.Regex
