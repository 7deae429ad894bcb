import Mathlib

/-!
# Numerals of a fixed width

Numbers written in some base, most significant digit first, over an alphabet
whose digits are ordered as they count. A number below the bound of a width is
written and read back, and two texts of one width are ordered as their numbers.
-/

namespace DbaBrain.Foundation.Numerals

/-- The digits of a base, and how each is written. -/
structure Digits (base : Nat) (α : Type) [LinearOrder α] where
  isDigit : α → Bool
  read : α → Nat
  write : Nat → α
  positive : 0 < base
  read_lt : ∀ c, isDigit c = true → read c < base
  write_read : ∀ c, isDigit c = true → write (read c) = c
  isDigit_write : ∀ n < base, isDigit (write n) = true
  read_write : ∀ n < base, read (write n) = n
  lt_iff : ∀ c d, isDigit c = true → isDigit d = true → (c < d ↔ read c < read d)

namespace Digits

variable {base : Nat} {α : Type} [LinearOrder α] (digits : Digits base α)

def value (text : List α) : Nat := text.foldl (fun number c => base * number + digits.read c) 0

def numeral : Nat → Nat → List α
  | 0, _ => []
  | width + 1, number => digits.write (number / base ^ width % base) :: numeral width number

/-- A number written with at least so many digits. -/
def padded (width number : Nat) : List α := digits.numeral (max width (Nat.log base number + 1)) number

@[simp]
theorem length_numeral (width number : Nat) : (digits.numeral width number).length = width := by
  induction width with
  | zero => rfl
  | succ width ih => rw [numeral, List.length_cons, ih]

theorem isDigit_numeral (width number : Nat) : ∀ c ∈ digits.numeral width number, digits.isDigit c = true := by
  induction width with
  | zero => exact fun c member => absurd member List.not_mem_nil
  | succ width ih =>
    refine List.forall_mem_cons.mpr ⟨?_, ih⟩
    exact digits.isDigit_write _ (Nat.mod_lt _ digits.positive)

theorem foldl_value (text : List α) (start : Nat) :
    text.foldl (fun number c => base * number + digits.read c) start =
      base ^ text.length * start + digits.value text := by
  induction text generalizing start with
  | nil => simp [value]
  | cons c rest ih =>
    rw [value, List.foldl_cons, List.foldl_cons, ih, ih (base * 0 + digits.read c), List.length_cons, pow_succ]
    ring

theorem value_cons (c : α) (rest : List α) :
    digits.value (c :: rest) = base ^ rest.length * digits.read c + digits.value rest := by
  rw [value, List.foldl_cons, foldl_value]
  simp

theorem value_append (front back : List α) :
    digits.value (front ++ back) = base ^ back.length * digits.value front + digits.value back := by
  rw [value, List.foldl_append, foldl_value]
  rfl

variable {text : List α} {width number : Nat}

theorem value_lt (all : ∀ c ∈ text, digits.isDigit c = true) : digits.value text < base ^ text.length := by
  induction text with
  | nil => simp [value]
  | cons c rest ih =>
    obtain ⟨head, tail⟩ := List.forall_mem_cons.mp all
    have below := ih tail
    have digit := digits.read_lt c head
    rw [value_cons, List.length_cons, pow_succ]
    calc base ^ rest.length * digits.read c + digits.value rest
        < base ^ rest.length * digits.read c + base ^ rest.length := Nat.add_lt_add_left below _
      _ = base ^ rest.length * (digits.read c + 1) := by ring
      _ ≤ base ^ rest.length * base := Nat.mul_le_mul_left _ digit

/-- A number below the bound of a width is read back from its numeral. -/
theorem value_numeral (bound : number < base ^ width) : digits.value (digits.numeral width number) = number := by
  have all : ∀ width, digits.value (digits.numeral width number) = number % base ^ width := by
    intro width
    induction width with
    | zero => simp [numeral, value, Nat.mod_one]
    | succ width ih =>
      rw [numeral, value_cons, ih, length_numeral, digits.read_write _ (Nat.mod_lt _ digits.positive), pow_succ,
        Nat.mod_mul]
      ring
  rw [all, Nat.mod_eq_of_lt bound]

/-- The first digits of a numeral are the numeral of what is left of the number without the others. -/
theorem take_numeral (width more number : Nat) :
    (digits.numeral (width + more) number).take width = digits.numeral width (number / base ^ more) := by
  induction width with
  | zero => simp [numeral]
  | succ width ih =>
    have room : width + 1 + more = width + more + 1 := by omega
    rw [room, numeral, List.take_succ_cons, ih, numeral, Nat.div_div_eq_div_mul, Nat.add_comm width more, pow_add]

/-- Only the digits of a number below the bound matter. -/
theorem numeral_mod (width number : Nat) : digits.numeral width (number % base ^ width) = digits.numeral width number := by
  have all : ∀ more, width ≤ more → digits.numeral width (number % base ^ more) = digits.numeral width number := by
    induction width with
    | zero => exact fun _ _ => rfl
    | succ width ih =>
      intro more wide
      obtain ⟨rest, rfl⟩ := Nat.exists_eq_add_of_le wide
      rw [numeral, numeral, ih _ (by omega)]
      have split : base ^ (width + 1 + rest) = base ^ width * (base * base ^ rest) := by ring
      rw [split, Nat.mod_mul_right_div_self, Nat.mod_mul_right_mod]
  exact all width le_rfl

theorem numeral_value (all : ∀ c ∈ text, digits.isDigit c = true) :
    digits.numeral text.length (digits.value text) = text := by
  induction text with
  | nil => rfl
  | cons c rest ih =>
    obtain ⟨head, tail⟩ := List.forall_mem_cons.mp all
    have below := digits.value_lt tail
    have positive : 0 < base ^ rest.length := Nat.pow_pos digits.positive
    have top : digits.value (c :: rest) / base ^ rest.length % base = digits.read c := by
      rw [value_cons, Nat.mul_add_div positive, Nat.div_eq_of_lt below, Nat.add_zero]
      exact Nat.mod_eq_of_lt (digits.read_lt c head)
    have low : digits.value (c :: rest) % base ^ rest.length = digits.value rest := by
      rw [value_cons, Nat.mul_add_mod, Nat.mod_eq_of_lt below]
    rw [List.length_cons, numeral, top, digits.write_read c head, ← numeral_mod, low, ih tail]

/-- Two texts of one width are ordered as their numbers. -/
theorem lt_iff_value_lt {first second : List α} (width : first.length = second.length)
    (all : ∀ c ∈ first, digits.isDigit c = true) (alike : ∀ c ∈ second, digits.isDigit c = true) :
    first < second ↔ digits.value first < digits.value second := by
  induction first generalizing second with
  | nil =>
    obtain rfl := List.eq_nil_of_length_eq_zero width.symm
    simp
  | cons c rest ih =>
    cases second with
    | nil => cases width
    | cons d others =>
      obtain ⟨head, tail⟩ := List.forall_mem_cons.mp all
      obtain ⟨head', tail'⟩ := List.forall_mem_cons.mp alike
      have same : rest.length = others.length := Nat.succ.inj width
      have below := digits.value_lt tail
      have below' := digits.value_lt tail'
      rw [List.cons_lt_cons_iff, value_cons, value_cons, ih same tail tail', digits.lt_iff c d head head', same]
      rw [same] at below
      rcases lt_trichotomy (digits.read c) (digits.read d) with less | equal | more
      · refine iff_of_true (Or.inl less) ?_
        calc base ^ others.length * digits.read c + digits.value rest
            < base ^ others.length * digits.read c + base ^ others.length := Nat.add_lt_add_left below _
          _ = base ^ others.length * (digits.read c + 1) := by ring
          _ ≤ base ^ others.length * digits.read d := Nat.mul_le_mul_left _ less
          _ ≤ _ := Nat.le_add_right _ _
      · have letters : c = d := by
          rw [← digits.write_read c head, ← digits.write_read d head', equal]
        simp [letters]
      · refine iff_of_false ?_ (not_lt.mpr ?_)
        · rintro (less | ⟨rfl, -⟩)
          · exact absurd less (not_lt.mpr more.le)
          · exact absurd more (lt_irrefl _)
        · calc base ^ others.length * digits.read d + digits.value others
              ≤ base ^ others.length * digits.read d + base ^ others.length := Nat.add_le_add_left below'.le _
            _ = base ^ others.length * (digits.read d + 1) := by ring
            _ ≤ base ^ others.length * digits.read c := Nat.mul_le_mul_left _ more
            _ ≤ _ := Nat.le_add_right _ _

theorem padded_eq (large : 1 < base) (room : 0 < width) (bound : number < base ^ width) :
    digits.padded width number = digits.numeral width number := by
  have few : Nat.log base number + 1 ≤ width := by
    rcases Nat.eq_zero_or_pos number with rfl | some
    · rw [Nat.log_zero_right]
      exact room
    · exact (Nat.log_lt_iff_lt_pow large some.ne').mpr bound
  rw [padded, max_eq_left few]

end Digits

/-! ## The upper-case hexadecimal digits -/

def isHexDigit (c : Char) : Bool := ('0' ≤ c && c ≤ '9') || ('A' ≤ c && c ≤ 'F')

def readHex (c : Char) : Nat := if c ≤ '9' then c.toNat - 48 else c.toNat - 55

def writeHex (n : Nat) : Char := if n < 10 then Char.ofNat (48 + n) else Char.ofNat (55 + n)

variable {c : Char} {n : Nat}

theorem exists_writeHex (digit : isHexDigit c = true) : ∃ n < 16, c = writeHex n := by
  simp only [isHexDigit, Bool.or_eq_true, Bool.and_eq_true, decide_eq_true_eq] at digit
  have range : (48 ≤ c.toNat ∧ c.toNat ≤ 57) ∨ (65 ≤ c.toNat ∧ c.toNat ≤ 70) := digit
  have spelled : c = Char.ofNat c.toNat := (Char.ofNat_toNat c).symm
  rcases range with ⟨low, high⟩ | ⟨low, high⟩
  · refine ⟨c.toNat - 48, by omega, ?_⟩
    rw [writeHex, if_pos (by omega), Nat.add_sub_cancel' low]
    exact spelled
  · refine ⟨c.toNat - 55, by omega, ?_⟩
    rw [writeHex, if_neg (by omega), Nat.add_sub_cancel' (by omega)]
    exact spelled

theorem readHex_writeHex (bound : n < 16) : readHex (writeHex n) = n := by
  interval_cases n <;> rfl

theorem writeHex_lt_iff : ∀ m < 16, ∀ n < 16, writeHex m < writeHex n ↔ m < n := by
  decide

def hexDigits : Digits 16 Char where
  isDigit := isHexDigit
  read := readHex
  write := writeHex
  positive := by decide
  read_lt c digit := by
    obtain ⟨n, bound, rfl⟩ := exists_writeHex digit
    rw [readHex_writeHex bound]
    exact bound
  write_read c digit := by
    obtain ⟨n, bound, rfl⟩ := exists_writeHex digit
    rw [readHex_writeHex bound]
  isDigit_write n bound := by
    interval_cases n <;> rfl
  read_write n bound := readHex_writeHex bound
  lt_iff c d digit digit' := by
    obtain ⟨m, small, rfl⟩ := exists_writeHex digit
    obtain ⟨n, bound, rfl⟩ := exists_writeHex digit'
    rw [readHex_writeHex small, readHex_writeHex bound]
    exact writeHex_lt_iff m small n bound

/-! ## The decimal digits -/

theorem exists_decimal (digit : c.isDigit = true) : ∃ n < 10, c = Char.ofNat (48 + n) := by
  have range : 48 ≤ c.toNat ∧ c.toNat ≤ 57 := Char.isDigit_iff_toNat.mp digit
  refine ⟨c.toNat - 48, by omega, ?_⟩
  rw [Nat.add_sub_cancel' range.1]
  exact (Char.ofNat_toNat c).symm

theorem toNat_decimal (bound : n < 10) : (Char.ofNat (48 + n)).toNat - 48 = n := by
  interval_cases n <;> rfl

theorem decimal_lt_iff : ∀ m < 10, ∀ n < 10, Char.ofNat (48 + m) < Char.ofNat (48 + n) ↔ m < n := by
  decide

def decimalDigits : Digits 10 Char where
  isDigit := Char.isDigit
  read c := c.toNat - 48
  write n := Char.ofNat (48 + n)
  positive := by decide
  read_lt c digit := by
    obtain ⟨n, bound, rfl⟩ := exists_decimal digit
    rw [toNat_decimal bound]
    exact bound
  write_read c digit := by
    obtain ⟨n, bound, rfl⟩ := exists_decimal digit
    rw [toNat_decimal bound]
  isDigit_write n bound := by
    interval_cases n <;> rfl
  read_write n bound := toNat_decimal bound
  lt_iff c d digit digit' := by
    obtain ⟨m, small, rfl⟩ := exists_decimal digit
    obtain ⟨n, bound, rfl⟩ := exists_decimal digit'
    rw [toNat_decimal small, toNat_decimal bound]
    exact decimal_lt_iff m small n bound

end DbaBrain.Foundation.Numerals
