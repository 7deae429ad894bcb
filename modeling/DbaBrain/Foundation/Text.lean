import Mathlib

/-!
# Text operations

Python's `strip`, one-character `replace` and slicing on strings, and `lower`
on the ASCII letters.
-/

namespace DbaBrain.Foundation.Text

/-- The characters `str.isspace` accepts. -/
def isSpace (c : Char) : Bool :=
  (9 ≤ c.toNat && c.toNat ≤ 13) || (28 ≤ c.toNat && c.toNat ≤ 32) || c.toNat ∈ [133, 160, 5760] ||
    (8192 ≤ c.toNat && c.toNat ≤ 8202) || c.toNat ∈ [8232, 8233, 8239, 8287, 12288]

def stripChars (chars : List Char) : List Char :=
  ((chars.dropWhile isSpace).reverse.dropWhile isSpace).reverse

def strip (text : String) : String := String.ofList (stripChars text.toList)

def replaceChar (old new : Char) (text : String) : String :=
  String.ofList (text.toList.map fun c => if c = old then new else c)

/-- `text[:count]`. -/
def take (count : Nat) (text : String) : String := String.ofList (text.toList.take count)

def asciiLower (text : String) : String := String.ofList (text.toList.map Char.toLower)

variable {text : String} {c : Char}

theorem append_ne_empty (more : String) (stated : text ≠ "") : text ++ more ≠ "" :=
  fun blank => stated (String.append_eq_empty_iff.mp blank).1

theorem intercalate_append {κ : Type} {joint : κ} {front back : List (List κ)} (some_part : front ≠ []) (more : back ≠ []) :
    [joint].intercalate (front ++ back) = [joint].intercalate front ++ joint :: [joint].intercalate back := by
  induction front with
  | nil => exact absurd rfl some_part
  | cons part rest ih =>
    cases rest with
    | nil => simp [List.intercalate_cons_of_ne_nil more]
    | cons second rest =>
      rw [List.cons_append, List.intercalate_cons_of_ne_nil (by simp), ih (List.cons_ne_nil second rest),
        List.intercalate_cons_cons, List.append_assoc, List.append_assoc, List.append_assoc]

theorem dropWhile_eq_self {chars : List Char} (first : ∀ c ∈ chars.head?, isSpace c = false) :
    chars.dropWhile isSpace = chars := by
  cases chars with
  | nil => rfl
  | cons c rest => simp [first c rfl]

/-- A text whose two ends are no space is its own strip. -/
theorem strip_eq_self (first : ∀ c ∈ text.toList.head?, isSpace c = false)
    (last : ∀ c ∈ text.toList.getLast?, isSpace c = false) : strip text = text := by
  have back : text.toList.reverse.dropWhile isSpace = text.toList.reverse := by
    apply dropWhile_eq_self
    simpa using last
  simp [strip, stripChars, dropWhile_eq_self first, back]

theorem toLower_eq_self (other : c.toNat < 65 ∨ 90 < c.toNat) : c.toLower = c := by
  rw [Char.toLower, dif_neg]
  rintro ⟨above, below⟩
  have lower : 65 ≤ c.toNat := UInt32.le_iff_toNat_le.mp above
  have upper : c.toNat ≤ 90 := UInt32.le_iff_toNat_le.mp below
  omega

theorem toLower_of_isSpace (blank : isSpace c = true) : c.toLower = c := by
  apply toLower_eq_self
  simp only [isSpace, Bool.or_eq_true, Bool.and_eq_true, decide_eq_true_eq, List.mem_cons, List.not_mem_nil,
    or_false] at blank
  omega

theorem strip_eq_self_of_asciiLower {word : String} (spelled : asciiLower text = word)
    (blankless : ∀ c ∈ word.toList, isSpace c = false) : strip text = text := by
  have letters : ∀ c ∈ text.toList, isSpace c = false := by
    intro c member
    cases blank : isSpace c with
    | false => rfl
    | true =>
      have inWord : c.toLower ∈ word.toList := by
        rw [← spelled, asciiLower, String.toList_ofList]
        exact List.mem_map_of_mem member
      rw [toLower_of_isSpace blank] at inWord
      rw [blankless c inWord] at blank
      exact blank.symm
  apply strip_eq_self
  · intro c first
    exact letters c (List.mem_of_head? first)
  · intro c last
    exact letters c (List.mem_of_getLast? last)

theorem replaceChar_eq_self {old new : Char} (absent : old ∉ text.toList) : replaceChar old new text = text := by
  have same : (text.toList.map fun c => if c = old then new else c) = text.toList := by
    conv_rhs => rw [← List.map_id text.toList]
    apply List.map_congr_left
    intro c member
    have differ : c ≠ old := by
      rintro rfl
      exact absent member
    exact if_neg differ
  rw [replaceChar, same, String.ofList_toList]

theorem take_eq_self {count : Nat} (short : text.toList.length ≤ count) : take count text = text := by
  rw [take, List.take_of_length_le short, String.ofList_toList]

/-- `needle in text`. -/
def contains (needle text : String) : Bool := needle.toList <:+: text.toList

@[simp]
theorem contains_iff {needle : String} : contains needle text = true ↔ needle.toList <:+: text.toList := by
  simp [contains]

theorem asciiLower_append (front back : String) : asciiLower (front ++ back) = asciiLower front ++ asciiLower back := by
  apply String.toList_injective
  simp [asciiLower]

theorem asciiLower_toString (n : Nat) : asciiLower (toString n) = toString n := by
  have same : ∀ c ∈ (toString n).toList, c.toLower = c := by
    intro c member
    have digit : c.isDigit = true := by
      rw [Nat.toString_eq_repr, Nat.repr_eq_ofList_toDigits, String.toList_ofList] at member
      exact Nat.isDigit_of_mem_toDigits (by decide) (by decide) member
    rw [Char.toLower, dif_neg]
    rintro ⟨above, -⟩
    have lower : 65 ≤ c.toNat := UInt32.le_iff_toNat_le.mp above
    have upper : c.toNat ≤ 57 := by
      simp only [Char.isDigit, Bool.and_eq_true, decide_eq_true_eq] at digit
      exact UInt32.le_iff_toNat_le.mp digit.2
    omega
  apply String.toList_injective
  rw [asciiLower, String.toList_ofList, List.map_congr_left same, List.map_id']

variable {needle front back : List Char}

/-- A text without the character is found before it or after it. -/
theorem infix_of_infix_append_cons (absent : c ∉ needle) (found : needle <:+: front ++ c :: back) :
    needle <:+: front ∨ needle <:+: back := by
  obtain ⟨before, after, split⟩ := found
  rcases List.append_eq_append_iff.mp split with ⟨rest, whole, -⟩ | ⟨rest, whole, tail⟩
  · exact Or.inl ⟨before, rest, whole.symm⟩
  · cases rest with
    | nil => exact Or.inl ⟨before, [], by simpa using whole⟩
    | cons head rest =>
      obtain ⟨rfl, rfl⟩ := List.cons.inj tail
      rcases List.append_eq_append_iff.mp whole with ⟨middle, -, inside⟩ | ⟨middle, -, crossing⟩
      · exact absurd (inside ▸ by simp) absent
      · cases middle with
        | nil =>
          rw [List.nil_append] at crossing
          exact absurd (crossing ▸ List.mem_cons_self) absent
        | cons _ middle =>
          obtain ⟨-, rfl⟩ := List.cons.inj crossing
          exact Or.inr ⟨middle, after, by simp⟩

/-- A text that shares no character with the middle is found before the middle or after it. -/
theorem infix_of_infix_append_append {middle : List Char} (nonempty : needle ≠ []) (absent : ∀ c ∈ middle, c ∉ needle)
    (some : middle ≠ []) (found : needle <:+: front ++ middle ++ back) : needle <:+: front ∨ needle <:+: back := by
  induction middle generalizing front with
  | nil => exact absurd rfl some
  | cons c rest ih =>
    have outside : needle <:+: front ∨ needle <:+: rest ++ back :=
      infix_of_infix_append_cons (absent c (by simp)) (by simpa using found)
    rcases outside with inFront | later
    · exact Or.inl inFront
    · cases rest with
      | nil => exact Or.inr later
      | cons d rest =>
        have next : needle <:+: [] ∨ needle <:+: back :=
          ih (fun c member => absent c (List.mem_cons_of_mem _ member)) (by simp) later
        exact next.imp_left fun inNothing => absurd (List.infix_nil.mp inNothing) nonempty

end DbaBrain.Foundation.Text
