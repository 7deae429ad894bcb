import Mathlib

/-!
# JSON values and their text

The values `json.loads` reads and the text `json.dumps` writes of them.  The
text names its value: where two texts of values begin two equal texts, and what
follows does not go on with a number, the values are the same.
-/

namespace DbaBrain.Foundation

/-- The characters of a number's text. -/
def isNumberChar (c : Char) : Bool := c.isDigit || c ∈ ['-', '+', '.', 'e']

/-- The text of a float that is a number: never an integer's. -/
@[ext]
structure FloatText where
  text : String
  chars : ∀ c ∈ text.toList, isNumberChar c = true
  fraction : ∃ c ∈ text.toList, c = '.' ∨ c = 'e'

/-- A JSON value; the entries of an object are in the order they were written. -/
inductive Json
  | null
  | bool (value : Bool)
  | int (value : Int)
  | float (value : FloatText)
  | string (value : String)
  | array (items : List Json)
  | object (entries : List (String × Json))

namespace Json

/-! ## Characters inside a string -/

/-- The last four hexadecimal digits of a number. -/
def hexFour (n : Nat) : List Char :=
  [Nat.digitChar (n / 4096 % 16), Nat.digitChar (n / 256 % 16), Nat.digitChar (n / 16 % 16), Nat.digitChar (n % 16)]

/-- How a character is written: a backslash and a letter, its number, its number in two halves, or itself. -/
inductive Escape
  | short (letter : Char)
  | unit (number : Nat)
  | pair (high low : Nat)
  | plain (c : Char)

def Escape.text : Escape → List Char
  | .short letter => ['\\', letter]
  | .unit number => '\\' :: 'u' :: hexFour number
  | .pair high low => '\\' :: 'u' :: (hexFour high ++ '\\' :: 'u' :: hexFour low)
  | .plain c => [c]

/-- `ensureAscii` escapes whatever is not printable ASCII, in halves where four digits do not hold it. -/
def escapeOf (ensureAscii : Bool) (c : Char) : Escape :=
  if c = '"' then .short '"'
  else if c = '\\' then .short '\\'
  else if c = '\n' then .short 'n'
  else if c = '\r' then .short 'r'
  else if c = '\t' then .short 't'
  else if c = '\x0c' then .short 'f'
  else if c = '\x08' then .short 'b'
  else if c.toNat < 32 then .unit c.toNat
  else if ensureAscii = true ∧ 126 < c.toNat then
    if c.toNat < 65536 then .unit c.toNat
    else .pair (55296 + (c.toNat - 65536) / 1024) (56320 + (c.toNat - 65536) % 1024)
  else .plain c

def writeString (ensureAscii : Bool) (text : String) : List Char :=
  '"' :: (text.toList.flatMap (fun c => (escapeOf ensureAscii c).text) ++ ['"'])

/-! ## Values -/

/-- How a text is written: `spaced` with `", "` and `": "`, else with `","` and `":"`. -/
structure Style where
  spaced : Bool
  ensureAscii : Bool

def Style.gap (style : Style) : List Char := if style.spaced then [' '] else []

mutual

def write (style : Style) : Json → List Char
  | .null => ['n', 'u', 'l', 'l']
  | .bool true => ['t', 'r', 'u', 'e']
  | .bool false => ['f', 'a', 'l', 's', 'e']
  | .int value => value.repr.toList
  | .float value => value.text.toList
  | .string value => writeString style.ensureAscii value
  | .array [] => ['[', ']']
  | .array (first :: rest) => '[' :: (write style first ++ writeItems style rest)
  | .object [] => ['{', '}']
  | .object ((key, value) :: rest) =>
      '{' :: (writeString style.ensureAscii key ++ ':' :: (style.gap ++ (write style value ++ writeEntries style rest)))

def writeItems (style : Style) : List Json → List Char
  | [] => [']']
  | item :: rest => ',' :: (style.gap ++ (write style item ++ writeItems style rest))

def writeEntries (style : Style) : List (String × Json) → List Char
  | [] => ['}']
  | (key, value) :: rest =>
      ',' :: (style.gap ++ (writeString style.ensureAscii key ++
        ':' :: (style.gap ++ (write style value ++ writeEntries style rest))))

end

def dumps (style : Style) (value : Json) : String := String.ofList (write style value)

example : dumps ⟨true, false⟩ (.array [.bool true, .null]) = "[true, null]" := by
  simp [dumps, write, writeItems, Style.gap]

/-! ## A string's text names the string -/

variable {first second high low : Nat} {ensureAscii : Bool} {text : List Char}

theorem hexFour_inj (bounded : first < 65536) (under : second < 65536) (same : hexFour first = hexFour second) :
    first = second := by
  have digits : ∀ d < 16, ∀ e < 16, Nat.digitChar d = Nat.digitChar e → d = e := by decide
  simp only [hexFour, List.cons.injEq, and_true] at same
  obtain ⟨top, high, low, last⟩ := same
  have top := digits _ (Nat.mod_lt _ (by decide)) _ (Nat.mod_lt _ (by decide)) top
  have high := digits _ (Nat.mod_lt _ (by decide)) _ (Nat.mod_lt _ (by decide)) high
  have low := digits _ (Nat.mod_lt _ (by decide)) _ (Nat.mod_lt _ (by decide)) low
  have last := digits _ (Nat.mod_lt _ (by decide)) _ (Nat.mod_lt _ (by decide)) last
  omega

variable {front back : List Char} {c : Char}

/-- A number and what follows it are read off four digits. -/
theorem hexFour_append_inj (bounded : first < 65536) (under : second < 65536)
    (same : hexFour first ++ front = hexFour second ++ back) : first = second ∧ front = back := by
  obtain ⟨digits, rest⟩ := List.append_inj same rfl
  exact ⟨hexFour_inj bounded under digits, rest⟩

/-- What a character can be written as. -/
def Escape.Valid : Escape → Prop
  | .short letter => letter ≠ 'u'
  | .unit number => number < 55296 ∨ 57343 < number ∧ number < 65536
  | .pair high low => 55295 < high ∧ high < 56320 ∧ low < 65536
  | .plain c => c ≠ '\\' ∧ c ≠ '"'

theorem Escape.Valid.lt_bound {number : Nat} (valid : (Escape.unit number).Valid) : number < 65536 := by
  rcases valid with low | high
  · omega
  · exact high.2

theorem Escape.Valid.high_lt (valid : (Escape.pair high low).Valid) : high < 65536 := by
  have bounded := valid.2.1
  omega

/-- A first half is no character's number. -/
theorem Escape.Valid.high_not_unit (valid : (Escape.pair high low).Valid) : ¬ (Escape.unit high).Valid := by
  obtain ⟨above, below, _⟩ := valid
  rintro (small | large)
  · omega
  · omega

theorem toNat_ranges (c : Char) : c.toNat < 55296 ∨ 57343 < c.toNat ∧ c.toNat < 1114112 := c.valid

theorem valid_escapeOf (ensureAscii : Bool) (c : Char) : (escapeOf ensureAscii c).Valid := by
  have ranges := toNat_ranges c
  fun_cases escapeOf ensureAscii c with
  | case8 => exact Or.inl (by omega)
  | case9 =>
    rcases ranges with low | high
    · exact Or.inl low
    · exact Or.inr ⟨high.1, by assumption⟩
  | case10 =>
    have wide : 65536 ≤ c.toNat := by omega
    have bounded : c.toNat < 1114112 := by omega
    refine ⟨by omega, ?_, ?_⟩
    · omega
    · omega
  | case11 quote slash => exact ⟨slash, quote⟩
  | _ => simp [Escape.Valid]

/-- The character that is written so. -/
def Escape.char : Escape → Char
  | .short 'n' => '\n'
  | .short 'r' => '\r'
  | .short 't' => '\t'
  | .short 'f' => '\x0c'
  | .short 'b' => '\x08'
  | .short letter => letter
  | .unit number => Char.ofNat number
  | .pair high low => Char.ofNat (65536 + (high - 55296) * 1024 + (low - 56320))
  | .plain c => c

theorem char_escapeOf (ensureAscii : Bool) (c : Char) : (escapeOf ensureAscii c).char = c := by
  have ranges := toNat_ranges c
  fun_cases escapeOf ensureAscii c with
  | case8 => exact Char.ofNat_toNat c
  | case9 => exact Char.ofNat_toNat c
  | case10 =>
    have whole : 65536 + (55296 + (c.toNat - 65536) / 1024 - 55296) * 1024 +
        (56320 + (c.toNat - 65536) % 1024 - 56320) = c.toNat := by omega
    rw [Escape.char, whole, Char.ofNat_toNat]
  | case11 => rfl
  | _ => simp_all [Escape.char]

/-- What a character is written as, and what follows, are read off the text. -/
theorem Escape.text_append_inj {first second : Escape} (valid : first.Valid) (sound : second.Valid)
    (same : first.text ++ front = second.text ++ back) : first = second ∧ front = back := by
  cases first with
  | short letter =>
    cases second with
    | short other => simpa [Escape.text] using same
    | unit number => exact absurd (List.cons.inj (List.cons.inj same).2).1 valid
    | pair high low => exact absurd (List.cons.inj (List.cons.inj same).2).1 valid
    | plain c => exact absurd (List.cons.inj same).1.symm sound.1
  | unit number =>
    cases second with
    | short letter => exact absurd (List.cons.inj (List.cons.inj same).2).1.symm sound
    | unit other =>
      obtain ⟨rfl, rest⟩ := hexFour_append_inj valid.lt_bound sound.lt_bound
        (List.cons.inj (List.cons.inj same).2).2
      exact ⟨rfl, rest⟩
    | pair high low =>
      have digits : hexFour number ++ front = hexFour high ++ ('\\' :: 'u' :: (hexFour low ++ back)) := by
        simpa [Escape.text] using same
      obtain ⟨rfl, _⟩ := hexFour_append_inj valid.lt_bound sound.high_lt digits
      exact absurd valid sound.high_not_unit
    | plain c => exact absurd (List.cons.inj same).1.symm sound.1
  | pair high low =>
    cases second with
    | short letter => exact absurd (List.cons.inj (List.cons.inj same).2).1.symm sound
    | unit number =>
      have digits : hexFour high ++ ('\\' :: 'u' :: (hexFour low ++ front)) = hexFour number ++ back := by
        simpa [Escape.text] using same
      obtain ⟨rfl, _⟩ := hexFour_append_inj valid.high_lt sound.lt_bound digits
      exact absurd sound valid.high_not_unit
    | pair top bottom =>
      have digits : hexFour high ++ ('\\' :: 'u' :: (hexFour low ++ front)) =
          hexFour top ++ ('\\' :: 'u' :: (hexFour bottom ++ back)) := by
        simpa [Escape.text] using same
      obtain ⟨rfl, rest⟩ := hexFour_append_inj valid.high_lt sound.high_lt digits
      obtain ⟨rfl, follow⟩ := hexFour_append_inj valid.2.2 sound.2.2 (List.cons.inj (List.cons.inj rest).2).2
      exact ⟨rfl, follow⟩
    | plain c => exact absurd (List.cons.inj same).1.symm sound.1
  | plain c =>
    cases second with
    | plain other => simpa [Escape.text] using same
    | short letter => exact absurd (List.cons.inj same).1 valid.1
    | unit number => exact absurd (List.cons.inj same).1 valid.1
    | pair high low => exact absurd (List.cons.inj same).1 valid.1

theorem escape_append_inj {first second : Char}
    (same : (escapeOf ensureAscii first).text ++ front = (escapeOf ensureAscii second).text ++ back) :
    first = second ∧ front = back := by
  obtain ⟨escapes, rest⟩ := Escape.text_append_inj (valid_escapeOf _ _) (valid_escapeOf _ _) same
  have chars := congrArg Escape.char escapes
  rw [char_escapeOf, char_escapeOf] at chars
  exact ⟨chars, rest⟩

/-- No character is written with a quote in front. -/
theorem escape_head_ne_quote (ensureAscii : Bool) (c : Char) (front back : List Char) :
    (escapeOf ensureAscii c).text ++ front ≠ '"' :: back := by
  have valid := valid_escapeOf ensureAscii c
  intro same
  cases shape : escapeOf ensureAscii c with
  | plain own =>
    rw [shape] at same valid
    exact valid.2 (List.cons.inj same).1
  | short letter =>
    rw [shape] at same
    exact absurd (List.cons.inj same).1 (by decide)
  | unit number =>
    rw [shape] at same
    exact absurd (List.cons.inj same).1 (by decide)
  | pair high low =>
    rw [shape] at same
    exact absurd (List.cons.inj same).1 (by decide)

/-- A string and what follows are read off the text. -/
theorem writeString_append_inj {first second : String}
    (same : writeString ensureAscii first ++ front = writeString ensureAscii second ++ back) :
    first = second ∧ front = back := by
  have chars : ∀ {xs ys : List Char},
      xs.flatMap (fun c => (escapeOf ensureAscii c).text) ++ '"' :: front =
        ys.flatMap (fun c => (escapeOf ensureAscii c).text) ++ '"' :: back → xs = ys ∧ front = back := by
    intro xs
    induction xs with
    | nil =>
      intro ys texts
      cases ys with
      | nil => exact ⟨rfl, (List.cons.inj texts).2⟩
      | cons y ys =>
        rw [List.flatMap_cons, List.append_assoc] at texts
        exact absurd texts.symm (escape_head_ne_quote _ _ _ _)
    | cons x xs ih =>
      intro ys texts
      cases ys with
      | nil =>
        rw [List.flatMap_cons, List.append_assoc] at texts
        exact absurd texts (escape_head_ne_quote _ _ _ _)
      | cons y ys =>
        rw [List.flatMap_cons, List.flatMap_cons, List.append_assoc, List.append_assoc] at texts
        obtain ⟨rfl, rest⟩ := escape_append_inj texts
        obtain ⟨rfl, follow⟩ := ih rest
        exact ⟨rfl, follow⟩
  simp only [writeString, List.cons_append, List.append_assoc, List.nil_append, List.cons.injEq, true_and] at same
  obtain ⟨list, follow⟩ := chars same
  exact ⟨String.toList_injective list, follow⟩

/-! ## A value's text names the value -/

/-- What follows a value does not go on with a number. -/
def Follows (text : List Char) : Prop := ∀ c ∈ text.head?, isNumberChar c = false

theorem follows_cons (apart : isNumberChar c = false) : Follows (c :: text) := by
  intro other head
  obtain rfl := Option.some.inj head
  exact apart

/-- A number's text and what follows are read off the text. -/
theorem number_append_inj {first second : List Char} (numbers : ∀ c ∈ first, isNumberChar c = true)
    (digits : ∀ c ∈ second, isNumberChar c = true) (follows : Follows front) (next : Follows back)
    (same : first ++ front = second ++ back) : first = second ∧ front = back := by
  induction first generalizing second with
  | nil =>
    cases second with
    | nil => exact ⟨rfl, same⟩
    | cons c rest =>
      have apart := follows c (by rw [show front = c :: (rest ++ back) from same]; rfl)
      rw [digits c List.mem_cons_self] at apart
      exact absurd apart (by decide)
  | cons c rest ih =>
    cases second with
    | nil =>
      have apart := next c (by rw [show back = c :: (rest ++ front) from same.symm]; rfl)
      rw [numbers c List.mem_cons_self] at apart
      exact absurd apart (by decide)
    | cons d others =>
      obtain ⟨rfl, tails⟩ := List.cons.inj same
      obtain ⟨rfl, rest⟩ := ih (fun c member => numbers c (List.mem_cons_of_mem _ member))
        (fun c member => digits c (List.mem_cons_of_mem _ member)) tails
      exact ⟨rfl, rest⟩

/-- An integer is written with digits, after a minus when it is negative. -/
theorem intChar (value : Int) : ∀ c ∈ value.repr.toList, c.isDigit = true ∨ c = '-' := by
  have digits : ∀ n : Nat, ∀ c ∈ n.repr.toList, c.isDigit = true := by
    intro n c member
    rw [Nat.repr, String.toList_ofList] at member
    exact Nat.isDigit_of_mem_toDigits (by decide) (by decide) member
  intro c member
  cases value with
  | ofNat n => exact Or.inl (digits n c member)
  | negSucc n =>
    rw [Int.repr, String.toList_append, List.mem_append] at member
    rcases member with minus | rest
    · exact Or.inr (List.mem_singleton.mp minus)
    · exact Or.inl (digits _ c rest)

theorem isNumberChar_of_int {value : Int} (member : c ∈ value.repr.toList) : isNumberChar c = true := by
  rcases intChar value c member with digit | rfl
  · simp [isNumberChar, digit]
  · decide

/-- An integer is not written as a float. -/
theorem repr_ne_float (value : Int) (float : FloatText) : value.repr.toList ≠ float.text.toList := by
  intro same
  obtain ⟨c, member, mark⟩ := float.fraction
  rw [← same] at member
  rcases intChar value c member with digit | rfl
  · rcases mark with rfl | rfl
    · exact absurd digit (by decide)
    · exact absurd digit (by decide)
  · exact absurd mark (by decide)

/-- The constructor of a value; integers and floats are both numbers. -/
def kind : Json → Nat
  | .null => 0
  | .bool _ => 1
  | .int _ => 3
  | .float _ => 3
  | .string _ => 4
  | .array _ => 5
  | .object _ => 6

/-- The constructor a first character tells. -/
def kindOf (c : Char) : Nat :=
  if c = 'n' then 0
  else if c = 't' then 1
  else if c = 'f' then 1
  else if c = '"' then 4
  else if c = '[' then 5
  else if c = '{' then 6
  else if isNumberChar c = true then 3
  else 7

theorem kindOf_number (number : isNumberChar c = true) : kindOf c = 3 := by
  have apart : ∀ other, isNumberChar other = false → c ≠ other := by
    rintro _ none rfl
    rw [number] at none
    exact absurd none (by decide)
  rw [kindOf, if_neg (apart _ (by decide)), if_neg (apart _ (by decide)), if_neg (apart _ (by decide)),
    if_neg (apart _ (by decide)), if_neg (apart _ (by decide)), if_neg (apart _ (by decide)), if_pos number]

/-- A number's text begins with one of its characters. -/
theorem number_head (some_char : text ≠ []) (numbers : ∀ c ∈ text, isNumberChar c = true) :
    ∃ c rest, text = c :: rest ∧ kindOf c = 3 := by
  cases text with
  | nil => exact absurd rfl some_char
  | cons c rest => exact ⟨c, rest, rfl, kindOf_number (numbers c List.mem_cons_self)⟩

theorem repr_ne_nil (value : Int) : value.repr.toList ≠ [] := by
  have digits : ∀ n : Nat, n.repr.toList ≠ [] := by
    intro n
    rw [Nat.repr, String.toList_ofList]
    exact Nat.toDigits_ne_nil
  cases value with
  | ofNat n => exact digits n
  | negSucc n =>
    rw [Int.repr, String.toList_append]
    exact List.append_ne_nil_of_right_ne_nil _ (digits _)

theorem write_head (style : Style) (value : Json) :
    ∃ c rest, write style value = c :: rest ∧ kindOf c = value.kind := by
  cases value with
  | null => exact ⟨_, _, rfl, rfl⟩
  | bool value =>
    cases value with
    | true => exact ⟨_, _, rfl, rfl⟩
    | false => exact ⟨_, _, rfl, rfl⟩
  | int value => exact number_head (repr_ne_nil value) fun _ member => isNumberChar_of_int member
  | float value =>
    obtain ⟨c, member, _⟩ := value.fraction
    exact number_head (List.ne_nil_of_mem member) value.chars
  | string value => exact ⟨_, _, rfl, rfl⟩
  | array items =>
    cases items with
    | nil => exact ⟨_, _, rfl, rfl⟩
    | cons first rest => exact ⟨_, _, rfl, rfl⟩
  | object entries =>
    cases entries with
    | nil => exact ⟨_, _, rfl, rfl⟩
    | cons first rest => exact ⟨_, _, rfl, rfl⟩

/-- Two texts of values that begin alike are of one constructor. -/
theorem kind_eq {style : Style} {first second : Json} (same : write style first ++ front = write style second ++ back) :
    first.kind = second.kind := by
  obtain ⟨c, rest, written, told⟩ := write_head style first
  obtain ⟨d, others, other, said⟩ := write_head style second
  rw [written, other] at same
  rw [← told, ← said, (List.cons.inj same).1]

theorem write_ne_bracket (style : Style) (value : Json) (front back : List Char) :
    write style value ++ front ≠ ']' :: back := by
  obtain ⟨c, rest, written, told⟩ := write_head style value
  intro same
  rw [written] at same
  rw [(List.cons.inj same).1] at told
  cases value <;> cases told

theorem follows_writeItems (style : Style) (items : List Json) (text : List Char) :
    Follows (writeItems style items ++ text) := by
  cases items with
  | nil => exact follows_cons (by decide)
  | cons item rest => exact follows_cons (by decide)

theorem follows_writeEntries (style : Style) (entries : List (String × Json)) (text : List Char) :
    Follows (writeEntries style entries ++ text) := by
  cases entries with
  | nil => exact follows_cons (by decide)
  | cons entry rest => exact follows_cons (by decide)

mutual

/-- A value and what follows are read off the text. -/
theorem write_append_inj (style : Style) : ∀ {first second : Json} {front back : List Char}, Follows front →
    Follows back → write style first ++ front = write style second ++ back → first = second ∧ front = back
  | .null, second, front, back, _, _, same => by
      have kinds := kind_eq same
      cases second with
      | null => exact ⟨rfl, List.append_cancel_left same⟩
      | _ => cases kinds
  | .bool flag, second, front, back, _, _, same => by
      have kinds := kind_eq same
      cases second with
      | bool value =>
        cases flag <;> cases value
        · exact ⟨rfl, List.append_cancel_left same⟩
        · exact absurd (List.cons.inj same).1 (by decide)
        · exact absurd (List.cons.inj same).1 (by decide)
        · exact ⟨rfl, List.append_cancel_left same⟩
      | _ => cases kinds
  | .int number, second, front, back, follows, next, same => by
      have kinds := kind_eq same
      cases second with
      | int other =>
        obtain ⟨texts, rest⟩ := number_append_inj (fun _ => isNumberChar_of_int) (fun _ => isNumberChar_of_int)
          follows next same
        exact ⟨congrArg Json.int (Int.repr_injective (String.toList_injective texts)), rest⟩
      | float other =>
        obtain ⟨texts, _⟩ := number_append_inj (fun _ => isNumberChar_of_int) other.chars follows next same
        exact absurd texts (repr_ne_float number other)
      | _ => cases kinds
  | .float number, second, front, back, follows, next, same => by
      have kinds := kind_eq same
      cases second with
      | float other =>
        obtain ⟨texts, rest⟩ := number_append_inj number.chars other.chars follows next same
        exact ⟨congrArg Json.float (FloatText.ext (String.toList_injective texts)), rest⟩
      | int other =>
        obtain ⟨texts, _⟩ := number_append_inj number.chars (fun _ => isNumberChar_of_int) follows next same
        exact absurd texts.symm (repr_ne_float other number)
      | _ => cases kinds
  | .string text, second, front, back, _, _, same => by
      have kinds := kind_eq same
      cases second with
      | string other =>
        obtain ⟨rfl, rest⟩ := writeString_append_inj same
        exact ⟨rfl, rest⟩
      | _ => cases kinds
  | .array [], second, front, back, _, _, same => by
      have kinds := kind_eq same
      cases second with
      | array items =>
        cases items with
        | nil => exact ⟨rfl, (List.cons.inj (List.cons.inj same).2).2⟩
        | cons item rest =>
          simp only [write, List.cons_append, List.cons.injEq, true_and, List.append_assoc] at same
          exact absurd same.symm (write_ne_bracket style item _ _)
      | _ => cases kinds
  | .array (head :: tail), second, front, back, _, _, same => by
      have kinds := kind_eq same
      cases second with
      | array items =>
        cases items with
        | nil =>
          simp only [write, List.cons_append, List.cons.injEq, true_and, List.append_assoc] at same
          exact absurd same (write_ne_bracket style head _ _)
        | cons item rest =>
          simp only [write, List.cons_append, List.cons.injEq, true_and, List.append_assoc] at same
          obtain ⟨rfl, rests⟩ := write_append_inj style (follows_writeItems style _ _)
            (follows_writeItems style _ _) same
          obtain ⟨rfl, follow⟩ := writeItems_append_inj style rests
          exact ⟨rfl, follow⟩
      | _ => cases kinds
  | .object [], second, front, back, _, _, same => by
      have kinds := kind_eq same
      cases second with
      | object entries =>
        cases entries with
        | nil => exact ⟨rfl, (List.cons.inj (List.cons.inj same).2).2⟩
        | cons entry rest => exact absurd (List.cons.inj (List.cons.inj same).2).1 (by decide)
      | _ => cases kinds
  | .object ((name, head) :: tail), second, front, back, _, _, same => by
      have kinds := kind_eq same
      cases second with
      | object entries =>
        cases entries with
        | nil => exact absurd (List.cons.inj (List.cons.inj same).2).1 (by decide)
        | cons entry rest =>
          simp only [write, List.cons_append, List.cons.injEq, true_and, List.append_assoc] at same
          obtain ⟨rfl, values⟩ := writeString_append_inj same
          have values := List.append_cancel_left (List.cons.inj values).2
          obtain ⟨rfl, rests⟩ := write_append_inj style (follows_writeEntries style _ _)
            (follows_writeEntries style _ _) values
          obtain ⟨rfl, follow⟩ := writeEntries_append_inj style rests
          exact ⟨rfl, follow⟩
      | _ => cases kinds

theorem writeItems_append_inj (style : Style) : ∀ {first second : List Json} {front back : List Char},
    writeItems style first ++ front = writeItems style second ++ back → first = second ∧ front = back
  | [], second, front, back, same => by
      cases second with
      | nil => exact ⟨rfl, (List.cons.inj same).2⟩
      | cons item rest => exact absurd (List.cons.inj same).1 (by decide)
  | head :: tail, second, front, back, same => by
      cases second with
      | nil => exact absurd (List.cons.inj same).1 (by decide)
      | cons item rest =>
        simp only [writeItems, List.cons_append, List.cons.injEq, true_and, List.append_assoc] at same
        obtain ⟨rfl, rests⟩ := write_append_inj style (follows_writeItems style _ _)
          (follows_writeItems style _ _) (List.append_cancel_left same)
        obtain ⟨rfl, follow⟩ := writeItems_append_inj style rests
        exact ⟨rfl, follow⟩

theorem writeEntries_append_inj (style : Style) : ∀ {first second : List (String × Json)} {front back : List Char},
    writeEntries style first ++ front = writeEntries style second ++ back → first = second ∧ front = back
  | [], second, front, back, same => by
      cases second with
      | nil => exact ⟨rfl, (List.cons.inj same).2⟩
      | cons entry rest => exact absurd (List.cons.inj same).1 (by decide)
  | (name, head) :: tail, second, front, back, same => by
      cases second with
      | nil => exact absurd (List.cons.inj same).1 (by decide)
      | cons entry rest =>
        simp only [writeEntries, List.cons_append, List.cons.injEq, true_and, List.append_assoc] at same
        obtain ⟨rfl, values⟩ := writeString_append_inj (List.append_cancel_left same)
        have values := List.append_cancel_left (List.cons.inj values).2
        obtain ⟨rfl, rests⟩ := write_append_inj style (follows_writeEntries style _ _)
          (follows_writeEntries style _ _) values
        obtain ⟨rfl, follow⟩ := writeEntries_append_inj style rests
        exact ⟨rfl, follow⟩

end

theorem dumps_injective (style : Style) : Function.Injective (dumps style) := by
  intro first second same
  have texts : write style first = write style second := by
    rw [← String.toList_ofList (l := write style first), ← String.toList_ofList (l := write style second)]
    exact congrArg String.toList same
  have ends : Follows [] := fun _ head => absurd head (by simp)
  have padded : write style first ++ [] = write style second ++ [] := by rw [texts]
  exact (write_append_inj style ends ends padded).1

/-- Two values are compared by their texts. -/
instance : DecidableEq Json := fun first second =>
  decidable_of_iff (dumps ⟨false, false⟩ first = dumps ⟨false, false⟩ second) (dumps_injective _).eq_iff

example : dumps ⟨true, true⟩ (.object [("name", .string "Đ\n"), ("kept", .array [.int (-3), .bool true])]) =
    "\x7b\"name\": \"\\u0110\\n\", \"kept\": [-3, true]\x7d" := by decide +kernel

end Json

end DbaBrain.Foundation
