import DbaBrain.Foundation.Replacing

/-!
# Text in quotes

A text is read from the left as characters by themselves, texts in single or double
quotes, and whatever else a reader looks for outside of quotes.  A single quote is
doubled in a text it closes.
-/

namespace DbaBrain.Foundation.Quoted

open DbaBrain.Foundation.Replacing

/-! ## Tokens -/

inductive Token
  | code (c : Char)
  | quoted (text : List Char)
  | special (text : List Char)
  deriving DecidableEq

def Token.text : Token → List Char
  | .code c => [c]
  | .quoted text | .special text => text

def render (tokens : List Token) : List Char := tokens.flatMap Token.text

def isQuote (c : Char) : Bool := c = '\'' || c = '"'

/-- The characters of a text in quotes, behind its opening quote. -/
def quotedLength (sign : Char) : List Char → Nat
  | [] => 0
  | [_] => 1
  | c :: d :: rest =>
      if c = sign then if sign = '\'' ∧ d = '\'' then quotedLength sign rest + 2 else 1
      else quotedLength sign (d :: rest) + 1

/-- The tokens of a text; `special` says how many characters of what is looked for stand at the front of a text, and the
first argument counts characters already taken. -/
def lexFrom (special : List Char → Nat) : Nat → List Char → List Token
  | _, [] => []
  | skipped + 1, _ :: rest => lexFrom special skipped rest
  | 0, c :: rest =>
      if 0 < special (c :: rest) then
        .special ((c :: rest).take (special (c :: rest))) :: lexFrom special (special (c :: rest) - 1) rest
      else if isQuote c then
        .quoted (c :: rest.take (quotedLength c rest)) :: lexFrom special (quotedLength c rest) rest
      else .code c :: lexFrom special 0 rest

def lex (special : List Char → Nat) (text : List Char) : List Token := lexFrom special 0 text

/-- Tokens as they are read from their own text. -/
inductive Lexed (special : List Char → Nat) : List Token → Prop
  | nil : Lexed special []
  | code {c : Char} {tokens : List Token} (plain : special (c :: render tokens) = 0) (bare : isQuote c = false)
      (later : Lexed special tokens) : Lexed special (.code c :: tokens)
  | quoted {sign : Char} {body : List Char} {tokens : List Token} (plain : special (sign :: (body ++
    render tokens)) = 0)
      (opens : isQuote sign = true) (closed : quotedLength sign (body ++ render tokens) = body.length)
      (later : Lexed special tokens) : Lexed special (.quoted (sign :: body) :: tokens)
  | special {text : List Char} {tokens : List Token} (stated : text ≠ [])
      (found : special (text ++ render tokens) = text.length) (later : Lexed special tokens) :
      Lexed special (.special text :: tokens)

section Reading

variable {special : List Char → Nat}

theorem lexFrom_eq (skipped : Nat) (text : List Char) :
    lexFrom special skipped text = lex special (text.drop skipped) := by
  induction text generalizing skipped with
  | nil =>
    rw [List.drop_nil]
    cases skipped <;> rfl
  | cons c rest ih =>
    cases skipped with
    | zero => rfl
    | succ skipped => exact ih skipped

theorem quotedLength_le (sign : Char) (text : List Char) : quotedLength sign text ≤ text.length := by
  fun_induction quotedLength sign text with
  | case1 => exact le_refl _
  | case2 => exact le_refl _
  | case3 => simp only [List.length_cons]; omega
  | case4 => simp only [List.length_cons]; omega
  | case5 => simp only [List.length_cons] at *; omega

/-- A text is its tokens', and they are read from it. -/
theorem lex_lexed (within : ∀ text, special text ≤ text.length) (text : List Char) :
    render (lex special text) = text ∧ Lexed special (lex special text) := by
  induction shown : text.length using Nat.strong_induction_on generalizing text with
  | _ length ih =>
    cases text with
    | nil => exact ⟨rfl, .nil⟩
    | cons c rest =>
      have shorter (count : Nat) : (rest.drop count).length < length := by
        rw [← shown, List.length_drop, List.length_cons]
        omega
      rw [lex, lexFrom]
      split_ifs with found opens
      · obtain ⟨same, later⟩ := ih _ (shorter (special (c :: rest) - 1)) _ rfl
        have front := within (c :: rest)
        have whole : (c :: rest).take (special (c :: rest)) ++ rest.drop (special (c :: rest) - 1) = c :: rest := by
          obtain ⟨more, count⟩ := Nat.exists_eq_succ_of_ne_zero found.ne'
          rw [count, Nat.succ_eq_add_one, Nat.add_sub_cancel, List.take_succ_cons, List.cons_append,
            List.take_append_drop]
        rw [lexFrom_eq]
        refine ⟨?_, .special ?_ ?_ later⟩
        · rw [render, List.flatMap_cons, ← render, same]
          exact whole
        · exact List.ne_nil_of_length_pos (by rw [List.length_take]; omega)
        · rw [same, whole, List.length_take, min_eq_left front]
      · obtain ⟨same, later⟩ := ih _ (shorter (quotedLength c rest)) _ rfl
        have plain : special (c :: rest) = 0 := by omega
        rw [lexFrom_eq]
        refine ⟨?_, .quoted ?_ opens ?_ later⟩
        · rw [render, List.flatMap_cons, ← render, same]
          exact congrArg _ (List.take_append_drop _ _)
        · rw [same, List.take_append_drop, plain]
        · rw [same, List.take_append_drop, List.length_take, min_eq_left (quotedLength_le c rest)]
      · obtain ⟨same, later⟩ := ih rest.length (by rw [← shown, List.length_cons]; omega) rest rfl
        have plain : special (c :: rest) = 0 := by omega
        refine ⟨?_, .code ?_ (Bool.eq_false_of_not_eq_true opens) later⟩
        · rw [render, List.flatMap_cons, ← render]
          exact congrArg _ same
        · rw [← lex, same, plain]

theorem closed_of_quotedLength {sign : Char} {body rest : List Char}
    (closed : quotedLength sign (body ++ rest) = body.length) : rest = [] ∨ ∃ inner, body = inner ++ [sign] := by
  generalize whole : body ++ rest = text at closed
  fun_induction quotedLength sign text generalizing body with
  | case1 => exact Or.inl (List.append_eq_nil_iff.mp whole).2
  | case2 c =>
    have length := congrArg List.length whole
    rw [List.length_append, List.length_singleton] at length
    exact Or.inl (List.length_eq_zero_iff.mp (by omega))
  | case3 d more doubled ih =>
    obtain ⟨first, second, inside, rfl⟩ : ∃ first second inside, body = first :: second :: inside := by
      match body, closed with
      | first :: second :: inside, _ => exact ⟨first, second, inside, rfl⟩
    obtain ⟨-, later⟩ := List.cons.inj whole
    obtain ⟨-, last⟩ := List.cons.inj later
    rcases ih last (by simpa using closed) with none | ⟨inner, rfl⟩
    · exact Or.inl none
    · exact Or.inr ⟨first :: second :: inner, rfl⟩
  | case4 d more single =>
    obtain ⟨first, rfl⟩ := List.length_eq_one_iff.mp closed.symm
    have same : first = sign := (List.cons.inj whole).1
    exact Or.inr ⟨[], by rw [same]; rfl⟩
  | case5 c d more other ih =>
    cases body with
    | nil => cases closed
    | cons first inside =>
      rcases ih (List.cons.inj whole).2 (by simpa using closed) with none | ⟨inner, rfl⟩
      · exact Or.inl none
      · exact Or.inr ⟨first :: inner, rfl⟩

end Reading

/-! ## Replacing outside of quotes -/

/-- Tokens with something put for what is looked for. -/
def replaced (value : List Char) : Token → List Char
  | .code c => [c]
  | .quoted text => text
  | .special _ => value

/-- Nothing that is looked for begins in a text in quotes. -/
def IsBare (special : List Char → Nat) (text : List Char) : Prop :=
  ∀ rest, (rest = [] ∨ ∃ inner sign, isQuote sign = true ∧ text = inner ++ [sign]) →
    ∀ c tail, c :: tail <:+ text → special (c :: tail ++ rest) = 0

section Replacing

variable {special : List Char → Nat} {finding : Option Char → List Char → Option (Nat × List Char)}
  {value : List Char} {tokens : List Token}

theorem isBare_context {sign : Char} {body rest : List Char} (opens : isQuote sign = true)
    (closed : quotedLength sign (body ++ rest) = body.length) :
    rest = [] ∨ ∃ inner last, isQuote last = true ∧ sign :: body = inner ++ [last] := by
  rcases closed_of_quotedLength closed with none | ⟨inner, rfl⟩
  · exact Or.inl none
  · exact Or.inr ⟨sign :: inner, sign, opens, rfl⟩

/-- What is looked for is replaced outside of quotes, and all else stands. -/
theorem substitute_render (lexed : Lexed special tokens)
    (agree : ∀ before text, finding before text = if 0 < special text then some (special text - 1, value) else none)
    (bare : ∀ text, Token.quoted text ∈ tokens → IsBare special text) (before : Option Char) :
    substitute finding before (render tokens) = tokens.flatMap (replaced value) := by
  induction lexed generalizing before with
  | nil => rfl
  | @code c tokens plain unquoted later ih =>
    have absent : finding before (c :: render tokens) = none := by rw [agree, plain, if_neg (Nat.lt_irrefl 0)]
    have others := ih (fun text member => bare text (List.mem_cons_of_mem _ member)) (some c)
    rw [List.flatMap_cons, ← others]
    exact substitute_cons_of_none absent
  | @quoted sign body tokens plain opens closed later ih =>
    have others := ih (fun text member => bare text (List.mem_cons_of_mem _ member)) (behind before (sign :: body))
    have clear := bare _ List.mem_cons_self _ (isBare_context opens closed)
    rw [List.flatMap_cons, ← others]
    refine substitute_append_of_none (sign :: body) fun first c tail split => ?_
    change finding (behind before first) (c :: tail ++ render tokens) = none
    rw [agree, clear c tail ⟨first, split.symm⟩, if_neg (Nat.lt_irrefl 0)]
  | @special text tokens stated here later ih =>
    have others := ih (fun text member => bare text (List.mem_cons_of_mem _ member)) (behind before text)
    have length := List.length_pos_iff.mpr stated
    rw [List.flatMap_cons, ← others]
    refine substitute_append_of_found _ stated ?_
    change finding before (text ++ render tokens) = some (text.length - 1, value)
    rw [agree, here, if_pos length]

end Replacing

/-! ## Stretches between quotes -/

/-- A text as the stretch in front of its first quote, and each text in quotes with the stretch behind it. -/
def stretches : List Token → List Char × List (List Char × List Char)
  | [] => ([], [])
  | .code c :: tokens => (c :: (stretches tokens).1, (stretches tokens).2)
  | .quoted text :: tokens => ([], (text, (stretches tokens).1) :: (stretches tokens).2)
  | .special text :: tokens => (text ++ (stretches tokens).1, (stretches tokens).2)

def join (first : List Char) (parts : List (List Char × List Char)) : List Char :=
  first ++ parts.flatMap fun part => part.1 ++ part.2

/-- A rewriting of each stretch by itself. -/
def mapStretches (rewrite : List Char → List Char) (parts : List (List Char × List Char)) :
    List (List Char × List Char) :=
  parts.map fun part => (part.1, rewrite part.2)

/-- Texts in quotes with stretches that have none; one that is not closed is the last. -/
def Parted : List (List Char × List Char) → Prop
  | [] => True
  | (text, stretch) :: parts =>
      (∃ sign body, isQuote sign = true ∧ text = sign :: body) ∧ (∀ c ∈ stretch, isQuote c = false) ∧
        ((∃ inner sign, isQuote sign = true ∧ text = inner ++ [sign]) ∨ stretch = [] ∧ parts = []) ∧ Parted parts

section Stretches

variable {tokens : List Token} {finding : Option Char → List Char → Option (Nat × List Char)}

theorem join_stretches (tokens : List Token) : join (stretches tokens).1 (stretches tokens).2 = render tokens := by
  unfold join render
  induction tokens with
  | nil => rfl
  | cons token tokens ih =>
    rw [List.flatMap_cons, ← ih]
    cases token with
    | code c => rfl
    | quoted text => simp [stretches, Token.text]
    | special text => simp [stretches, Token.text]

/-- Where nothing is looked for the stretches have no quotes. -/
theorem parted_stretches (lexed : Lexed (fun _ => 0) tokens) :
    (∀ c ∈ (stretches tokens).1, isQuote c = false) ∧ Parted (stretches tokens).2 := by
  induction lexed with
  | nil => exact ⟨by simp [stretches], trivial⟩
  | @code c tokens plain bare later ih =>
    refine ⟨fun d member => ?_, ih.2⟩
    rcases List.mem_cons.mp member with rfl | rest
    · exact bare
    · exact ih.1 d rest
  | @quoted sign body tokens plain opens closed later ih =>
    refine ⟨by simp [stretches], ⟨sign, body, opens, rfl⟩, ih.1, ?_, ih.2⟩
    rcases isBare_context opens closed with none | ended
    · have whole := join_stretches tokens
      rw [none, join, List.append_eq_nil_iff] at whole
      refine Or.inr ⟨whole.1, ?_⟩
      cases shown : (stretches tokens).2 with
      | nil => rfl
      | cons part parts =>
        have parted := ih.2
        rw [shown] at parted
        obtain ⟨text, stretch⟩ := part
        obtain ⟨⟨sign, body, -, rfl⟩, -⟩ := parted
        have empty := whole.2
        rw [shown] at empty
        cases empty
    · exact Or.inl ended
  | @special text tokens stated here later ih => exact absurd (List.length_eq_zero_iff.mp here.symm) stated

/-- What is found in a text is told by the text up to a quote, and no quote begins it. -/
structure IsLocal (finding : Option Char → List Char → Option (Nat × List Char)) : Prop where
  behind_quote : ∀ sign, isQuote sign = true → ∀ text, finding (some sign) text = finding none text
  before_quote : ∀ before text sign rest, isQuote sign = true → (∀ c ∈ text, isQuote c = false) →
    finding before (text ++ sign :: rest) = finding before text
  nothing : ∀ before, finding before [] = none
  within : ∀ before text more put, finding before text = some (more, put) →
    more < text.length ∧ ∀ c ∈ put, isQuote c = false

/-- Nothing is found in a text by itself. -/
def IsClear (finding : Option Char → List Char → Option (Nat × List Char)) (text : List Char) : Prop :=
  ∀ first c tail, text = first ++ c :: tail → finding (behind none first) (c :: tail) = none

theorem isClear_iff {finding : Option Char → List Char → Option (Nat × List Char)} {text : List Char} :
    IsClear finding text ↔ ∀ n < text.length, finding (behind none (text.take n)) (text.drop n) = none := by
  constructor
  · intro clear n inside
    obtain ⟨c, tail, rest⟩ := List.exists_cons_of_ne_nil (List.drop_eq_nil_iff.not.mpr inside.not_ge)
    rw [rest]
    exact clear _ c tail (by rw [← rest, List.take_append_drop])
  · rintro clear first c tail rfl
    have here := clear first.length (by simp)
    rwa [List.take_left, List.drop_left] at here

instance decidableIsClear (finding : Option Char → List Char → Option (Nat × List Char)) (text : List Char) :
    Decidable (IsClear finding text) := decidable_of_iff _ isClear_iff.symm

end Stretches

section Rewriting

variable {finding : Option Char → List Char → Option (Nat × List Char)}

theorem exists_first_quote {text : List Char} (quote : ∃ c ∈ text, isQuote c = true) :
    ∃ front sign back, text = front ++ sign :: back ∧ isQuote sign = true ∧ ∀ c ∈ front, isQuote c = false := by
  induction text with
  | nil => simp at quote
  | cons c text ih =>
    cases here : isQuote c with
    | true => exact ⟨[], c, text, rfl, here, by simp⟩
    | false =>
      obtain ⟨d, member, quoted⟩ := quote
      have later : d ∈ text := by
        rcases List.mem_cons.mp member with rfl | later
        · rw [here] at quoted
          cases quoted
        · exact later
      obtain ⟨front, sign, back, rfl, opens, bare⟩ := ih ⟨d, later, quoted⟩
      exact ⟨c :: front, sign, back, rfl, opens, List.forall_mem_cons.mpr ⟨here, bare⟩⟩

/-- A stretch is rewritten by itself. -/
theorem substitute_stretch (nearby : IsLocal finding) {text rest : List Char} (bare : ∀ c ∈ text, isQuote c = false)
    (ends : rest = [] ∨ ∃ sign more, isQuote sign = true ∧ rest = sign :: more) (before : Option Char) :
    substitute finding before (text ++ rest) =
      substitute finding before text ++ substitute finding (behind before text) rest := by
  induction shown : text.length using Nat.strong_induction_on generalizing text before with
  | _ length ih =>
    have same (before : Option Char) {tail : List Char} (inner : ∀ c ∈ tail, isQuote c = false) :
        finding before (tail ++ rest) = finding before tail := by
      rcases ends with rfl | ⟨sign, more, opens, rfl⟩
      · rw [List.append_nil]
      · exact nearby.before_quote before tail sign more opens inner
    cases text with
    | nil => rfl
    | cons c text =>
      obtain ⟨first, others⟩ := List.forall_mem_cons.mp bare
      cases here : finding before (c :: text) with
      | none =>
        have whole : finding before (c :: (text ++ rest)) = none := (same before bare).trans here
        have shorter : text.length < length := by rw [← shown, List.length_cons]; omega
        rw [List.cons_append, substitute_cons_of_none whole, substitute_cons_of_none here,
          ih _ shorter others (some c) rfl]
        rfl
      | some more =>
        obtain ⟨more, put⟩ := more
        have room := (nearby.within before _ more put here).1
        have split : c :: text = (c :: text).take (more + 1) ++ (c :: text).drop (more + 1) :=
          (List.take_append_drop _ _).symm
        have length_front : ((c :: text).take (more + 1)).length = more + 1 := by
          rw [List.length_take]
          omega
        have stated : (c :: text).take (more + 1) ≠ [] := List.ne_nil_of_length_pos (by omega)
        have shorter : ((c :: text).drop (more + 1)).length < length := by
          rw [← shown, List.length_drop]
          rw [List.length_cons] at room ⊢
          omega
        have inner : ∀ d ∈ (c :: text).drop (more + 1), isQuote d = false :=
          fun d member => bare d (List.mem_of_mem_drop member)
        have whole := same before bare
        rw [here] at whole
        have later := ih _ shorter inner (behind before ((c :: text).take (more + 1))) rfl
        have front := @substitute_append_of_found _ before _ finding put ((c :: text).drop (more + 1)) stated
          (by rw [← split, here, length_front]; rfl)
        have both := @substitute_append_of_found _ before _ finding put ((c :: text).drop (more + 1) ++
          rest) stated
          (by rw [← List.append_assoc, ← split, whole, length_front]; rfl)
        rw [← List.append_assoc, ← split] at both
        rw [← split] at front
        rw [both, front, later, List.append_assoc]
        congr 2
        rw [behind, behind, ← List.foldl_append, ← split]
        rfl

/-- A text in quotes in which nothing is found stands. -/
theorem substitute_quoted (nearby : IsLocal finding) {text rest : List Char} (clear : IsClear finding text)
    (opens : ∃ sign body, isQuote sign = true ∧ text = sign :: body)
    (ends : (∃ inner sign, isQuote sign = true ∧ text = inner ++ [sign]) ∨ rest = []) (before : Option Char) :
    substitute finding before (text ++ rest) = text ++ substitute finding (behind before text) rest := by
  have nothing_at_quote (before : Option Char) {sign : Char} (quote : isQuote sign = true) (more : List Char) :
      finding before (sign :: more) = none := by
    have empty := nearby.before_quote before [] sign more quote (by simp)
    rw [List.nil_append, nearby.nothing] at empty
    exact empty
  refine substitute_append_of_none text fun first c tail split => ?_
  cases first with
  | nil =>
    obtain ⟨sign, body, quote, rfl⟩ := opens
    obtain ⟨rfl, -⟩ := List.cons.inj split
    exact nothing_at_quote before quote _
  | cons d first =>
    have alone := clear (d :: first) c tail split
    rw [behind_of_ne_nil (List.cons_ne_nil d first) before none]
    rcases ends with ⟨inner, last, quote, closed⟩ | rfl
    · have last_inside : last ∈ c :: tail := by
        have reversed := congrArg List.getLast? (split.symm.trans closed)
        rw [List.getLast?_append_of_ne_nil _ (List.cons_ne_nil c tail), List.getLast?_concat] at reversed
        exact List.mem_of_getLast? reversed
      obtain ⟨front, sign, back, parts, quote, bare⟩ := exists_first_quote ⟨last, last_inside, quote⟩
      rw [parts] at alone ⊢
      rw [nearby.before_quote _ front sign back quote bare] at alone
      rw [List.append_assoc, List.cons_append, nearby.before_quote _ front sign _ quote bare, alone]
    · rw [List.append_nil]
      exact alone

theorem substitute_behind_quote (nearby : IsLocal finding) {sign : Char} (quote : isQuote sign = true)
    (text : List Char) : substitute finding (some sign) text = substitute finding none text := by
  cases text with
  | nil => rfl
  | cons c text => rw [substitute, substitute, substituteFrom, substituteFrom, nearby.behind_quote sign quote]

/-- A text is rewritten stretch by stretch, and its texts in quotes stand. -/
theorem substitute_join (nearby : IsLocal finding) {first : List Char} {parts : List (List Char × List Char)}
    (bare : ∀ c ∈ first, isQuote c = false) (parted : Parted parts) (clear : ∀ part ∈ parts, IsClear finding part.1) :
    substitute finding none (join first parts) =
      join (substitute finding none first) (mapStretches (substitute finding none) parts) := by
  have general (before : Option Char) : substitute finding before (join first parts) =
      substitute finding before first ++
        (mapStretches (substitute finding none) parts).flatMap fun part => part.1 ++ part.2 := by
    induction parts generalizing first before with
    | nil =>
      rw [join, List.flatMap_nil, List.append_nil]
      exact (List.append_nil _).symm
    | cons part parts ih =>
      obtain ⟨text, stretch⟩ := part
      obtain ⟨opens, inner, ends, later⟩ := parted
      obtain ⟨here, others⟩ := List.forall_mem_cons.mp clear
      have spelled : join first ((text, stretch) :: parts) = first ++ (text ++ join stretch parts) := by
        simp [join]
      have opened : text ++ join stretch parts = [] ∨
          ∃ sign more, isQuote sign = true ∧ text ++ join stretch parts = sign :: more := by
        obtain ⟨sign, body, quote, rfl⟩ := opens
        exact Or.inr ⟨sign, body ++ join stretch parts, quote, rfl⟩
      have ended : (∃ inner sign, isQuote sign = true ∧ text = inner ++ [sign]) ∨ join stretch parts = [] := by
        rcases ends with closed | ⟨rfl, rfl⟩
        · exact Or.inl closed
        · exact Or.inr rfl
      have fresh (before : Option Char) :
          substitute finding (behind before text) stretch = substitute finding none stretch := by
        rcases ends with ⟨inner, sign, quote, rfl⟩ | ⟨rfl, -⟩
        · rw [behind, List.foldl_append]
          exact substitute_behind_quote nearby quote stretch
        · rfl
      rw [spelled, substitute_stretch nearby bare opened, substitute_quoted nearby here opens ended,
        ih inner later others, fresh]
      simp [mapStretches]
  exact general none

theorem bare_substitute (nearby : IsLocal finding) {text : List Char} (bare : ∀ c ∈ text, isQuote c = false) :
    ∀ c ∈ substitute finding none text, isQuote c = false := by
  intro c member
  rcases mem_substitute member with inside | ⟨before, tail, more, put, here, placed⟩
  · exact bare c inside
  · exact (nearby.within before tail more put here).2 c placed

theorem parted_mapStretches (nearby : IsLocal finding) {parts : List (List Char × List Char)} (parted : Parted parts) :
    Parted (mapStretches (substitute finding none) parts) := by
  induction parts with
  | nil => trivial
  | cons part parts ih =>
    obtain ⟨opens, inner, ends, later⟩ := parted
    refine ⟨opens, bare_substitute nearby inner, ?_, ih later⟩
    rcases ends with closed | ⟨empty, rfl⟩
    · exact Or.inl closed
    · exact Or.inr ⟨by rw [empty]; rfl, rfl⟩

/-- Rewritings one after the other are so stretch by stretch. -/
theorem foldl_substitute_join {findings : List (Option Char → List Char → Option (Nat × List Char))}
    (nearby : ∀ finding ∈ findings, IsLocal finding) {first : List Char} {parts : List (List Char × List Char)}
    (bare : ∀ c ∈ first, isQuote c = false) (parted : Parted parts)
    (clear : ∀ finding ∈ findings, ∀ part ∈ parts, IsClear finding part.1) :
    findings.foldl (fun text finding => substitute finding none text) (join first parts) =
      join (findings.foldl (fun text finding => substitute finding none text) first)
        (mapStretches (fun text => findings.foldl (fun text finding => substitute finding none text) text) parts) := by
  induction findings generalizing first parts with
  | nil => simp [mapStretches]
  | cons finding findings ih =>
    obtain ⟨here, others⟩ := List.forall_mem_cons.mp nearby
    obtain ⟨clear_here, clear_others⟩ := List.forall_mem_cons.mp clear
    rw [List.foldl_cons, substitute_join here bare parted clear_here,
      ih others (bare_substitute here bare) (parted_mapStretches here parted)]
    · rw [mapStretches, mapStretches, List.map_map]
      rfl
    · intro later member part inside
      obtain ⟨original, stood, rfl⟩ := List.mem_map.mp inside
      exact clear_others later member original stood

end Rewriting

end DbaBrain.Foundation.Quoted
