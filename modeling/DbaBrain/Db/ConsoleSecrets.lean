import DbaBrain.Db.WebAuthStore
import DbaBrain.Foundation.Dict
import DbaBrain.Foundation.Lines

/-!
# Console passwords in the secret store

A console account's password may be kept in the secret store, under an entry that
is made of the username.  Two usernames have one entry exactly when they are the
same words in capitals, whatever stands between the words.
-/

namespace DbaBrain.Db.WebAuthStore

open DbaBrain.Foundation

/-- The interpreter's letters: `str.isalnum` of a character, and what `str.upper` puts for one. -/
structure Letters where
  isAlnum : Char → Bool
  upper : Char → List Char
  isAlnum_ascii : ∀ c, c.toNat < 128 → isAlnum c = c.isAlphanum
  upper_ascii : ∀ c, c.toNat < 128 → upper c = [c.toUpper]
  /-- Capitals are neither an underscore nor blank. -/
  upper_alnum : ∀ c, isAlnum c = true → ∀ d ∈ upper c, d ≠ '_' ∧ Text.isSpace d = false

namespace Letters

variable (letters : Letters)

def capitals (text : List Char) : List Char := text.flatMap letters.upper

/-- A letter or digit as it is, and an underscore for any other character. -/
def safeChar (c : Char) : Char := if letters.isAlnum c then c else '_'

end Letters

/-- `text.strip(…)` of the characters that are dropped. -/
def stripWhere (dropped : Char → Bool) (text : List Char) : List Char :=
  ((text.dropWhile dropped).reverse.dropWhile dropped).reverse

/-- `secret_ref_for`, of a name that is normalized. -/
def secretRef (letters : Letters) (name : String) : String :=
  "WEB_CONSOLE_" ++ String.ofList (letters.capitals (stripWhere (fun c => c = '_') (name.toList.map letters.safeChar)))

def secretRefFor (auth : WebAuth) (letters : Letters) (username : String) : Option String :=
  (auth.normalizeUsername username).map (secretRef letters)

/-! ## The store -/

/-- `set_secret_text` with `overwrite`, over the entries the store holds. -/
def setSecretText (secrets : Dict String String) (ref value : String) : Option (Dict String String) :=
  let ref := Text.strip ref
  if ref = "" ∨ value = "" then none
  else if secrets.get? ref = some value then some secrets
  else some (secrets.set ref value)

def rememberPassword (auth : WebAuth) (letters : Letters) (username password : String)
    (secrets : Dict String String) : Option (Dict String String) :=
  (secretRefFor auth letters username).bind fun ref => setSecretText secrets ref password

def recallPassword (auth : WebAuth) (letters : Letters) (username : String) (secrets : Dict String String) :
    Option String :=
  (secretRefFor auth letters username).map fun ref => (secrets.get? ref).getD ""

/-! ## The words of a name -/

/-- The words of a name in capitals: what other characters than letters and digits separate, but for those at its
ends. -/
def wordsOf (letters : Letters) (name : String) : List (List Char) :=
  ((stripWhere (fun c => !letters.isAlnum c) name.toList).splitOnP fun c => !letters.isAlnum c).map letters.capitals

section Words

variable (letters : Letters)

theorem safeChar_eq_underscore (c : Char) : decide (letters.safeChar c = '_') = !letters.isAlnum c := by
  unfold Letters.safeChar
  cases known : letters.isAlnum c with
  | true =>
    have apart : c ≠ '_' := by
      rintro rfl
      rw [letters.isAlnum_ascii '_' (by decide)] at known
      exact absurd known (by decide)
    simp [apart]
  | false => simp

/-- Underscores are stripped where other characters than letters and digits are. -/
theorem stripWhere_safe (text : List Char) :
    stripWhere (fun c => c = '_') (text.map letters.safeChar) =
      (stripWhere (fun c => !letters.isAlnum c) text).map letters.safeChar := by
  have same : ((fun c => decide (c = '_')) ∘ letters.safeChar) = fun c => !letters.isAlnum c :=
    funext (safeChar_eq_underscore letters)
  unfold stripWhere
  rw [List.dropWhile_map, same, ← List.map_reverse, List.dropWhile_map, same, ← List.map_reverse]

theorem underscore_notMem_capitals {word : List Char} (spelled : ∀ c ∈ word, letters.isAlnum c = true) :
    '_' ∉ letters.capitals word := by
  intro member
  obtain ⟨c, inside, capital⟩ := List.mem_flatMap.mp member
  exact (letters.upper_alnum c (spelled c inside) '_' capital).1 rfl

/-- The capitals of a name are split at their underscores where the name is at what is no letter or digit. -/
theorem splitOn_capitals (text : List Char) :
    (letters.capitals (text.map letters.safeChar)).splitOn '_' =
      (text.splitOnP fun c => !letters.isAlnum c).map letters.capitals := by
  induction text with
  | nil => rfl
  | cons c text ih =>
    obtain ⟨word, words, split⟩ := List.exists_cons_of_ne_nil (List.splitOnP_ne_nil (fun c => !letters.isAlnum c) text)
    rw [split] at ih
    have front : letters.capitals ((c :: text).map letters.safeChar) =
        letters.upper (letters.safeChar c) ++ letters.capitals (text.map letters.safeChar) := rfl
    rw [front, List.splitOnP_cons_eq_if_modifyHead, split]
    cases known : letters.isAlnum c with
    | true =>
      have spelled : ∀ d ∈ [c], letters.isAlnum d = true := by simp [known]
      have alone : '_' ∉ letters.upper c := by simpa [Letters.capitals] using underscore_notMem_capitals letters spelled
      have inside : '_' ∉ letters.capitals word := by
        apply @Lines.notMem_of_mem_splitOn _ _ _ '_'
        rw [ih]
        exact List.mem_cons_self
      have whole : '_' ∉ letters.upper c ++ letters.capitals word := by simp [alone, inside]
      rw [Letters.safeChar, known, if_pos rfl, Lines.splitOn_append_of_splitOn_eq_cons _ ih,
        List.splitOn_eq_singleton whole]
      rfl
    | false =>
      have sign : letters.upper '_' = ['_'] := letters.upper_ascii '_' (by decide)
      rw [Letters.safeChar, known, if_neg (by decide), sign, List.singleton_append,
        List.splitOn_cons_eq_if_modifyHead, if_pos (by decide), ih]
      rfl

theorem secretRef_eq (name : String) :
    secretRef letters name = "WEB_CONSOLE_" ++ String.ofList (['_'].intercalate (wordsOf letters name)) := by
  rw [wordsOf, ← splitOn_capitals, List.intercalate_splitOn, secretRef, stripWhere_safe]

/-- Two names have one entry exactly when they are the same words in capitals. -/
theorem secretRef_eq_iff (first second : String) :
    secretRef letters first = secretRef letters second ↔ wordsOf letters first = wordsOf letters second := by
  constructor
  · intro same
    unfold secretRef at same
    rw [stripWhere_safe, stripWhere_safe] at same
    have capitals := String.ofList_injective ((String.append_right_inj _).mp same)
    rw [wordsOf, wordsOf, ← splitOn_capitals, ← splitOn_capitals, capitals]
  · intro same
    rw [secretRef_eq, secretRef_eq, same]

theorem prefix_unblank : ("WEB_CONSOLE_".toList.all fun d => !Text.isSpace d) = true := by decide +kernel

theorem capitals_unblank {text : List Char} {d : Char} (member : d ∈ letters.capitals (text.map letters.safeChar)) :
    Text.isSpace d = false := by
  obtain ⟨_, inside, capital⟩ := List.mem_flatMap.mp member
  obtain ⟨c, _, rfl⟩ := List.mem_map.mp inside
  unfold Letters.safeChar at capital
  split at capital
  · next known => exact (letters.upper_alnum c known d capital).2
  · rw [letters.upper_ascii '_' (by decide), List.mem_singleton] at capital
    rw [capital]
    decide

/-- No entry has a blank end. -/
theorem strip_secretRef (name : String) : Text.strip (secretRef letters name) = secretRef letters name := by
  have spelled : ∀ d ∈ (secretRef letters name).toList, Text.isSpace d = false := by
    intro d member
    rw [secretRef, stripWhere_safe, String.toList_append, List.mem_append] at member
    rcases member with front | capital
    · simpa using List.all_eq_true.mp prefix_unblank d front
    · rw [String.toList_ofList] at capital
      exact capitals_unblank letters capital
  exact Text.strip_eq_self (fun d first => spelled d (List.mem_of_mem_head? first))
    (fun d last => spelled d (List.mem_of_getLast? last))

end Words

/-! ## Two accounts -/

section Accounts

variable {auth : WebAuth} {letters : Letters} {first second a b password : String}
  {secrets changed : Dict String String}

/-- A password that is remembered is in its entry, and no other entry is touched. -/
theorem get?_rememberPassword (accepted : auth.normalizeUsername first = some a)
    (remembered : rememberPassword auth letters first password secrets = some changed) (ref : String) :
    changed.get? ref = if ref = secretRef letters a then some password else secrets.get? ref := by
  simp only [rememberPassword, secretRefFor, accepted, Option.map_some, Option.bind_some, setSecretText,
    strip_secretRef] at remembered
  split at remembered
  · cases remembered
  · split at remembered
    · next held =>
        cases remembered
        split
        · next same => rw [same, held]
        · rfl
    · cases remembered
      rw [Dict.get?_set]

/-- Of two accepted usernames the one has another entry than the other, and remembering its password leaves the
other's as it was, exactly when they differ as words in capitals. -/
theorem secrets_apart_iff (auth : WebAuth) (letters : Letters) (first second a b : String)
    (first_accepted : auth.normalizeUsername first = some a) (second_accepted : auth.normalizeUsername second = some b) :
    (secretRefFor auth letters first ≠ secretRefFor auth letters second ∧
      ∀ password secrets changed, rememberPassword auth letters first password secrets = some changed →
        recallPassword auth letters second changed = recallPassword auth letters second secrets) ↔
      wordsOf letters a ≠ wordsOf letters b := by
  have first_ref : secretRefFor auth letters first = some (secretRef letters a) := by
    rw [secretRefFor, first_accepted, Option.map_some]
  have second_ref : secretRefFor auth letters second = some (secretRef letters b) := by
    rw [secretRefFor, second_accepted, Option.map_some]
  rw [first_ref, second_ref, ne_eq, Option.some_inj, secretRef_eq_iff]
  refine and_iff_left_of_imp fun apart password secrets changed remembered => ?_
  have other : secretRef letters b ≠ secretRef letters a :=
    fun same => apart ((secretRef_eq_iff letters a b).mp same.symm)
  rw [recallPassword, recallPassword, second_ref, Option.map_some, Option.map_some,
    get?_rememberPassword first_accepted remembered, if_neg other]

end Accounts

def asciiLetters : Letters where
  isAlnum := fun c => c.isAlphanum
  upper := fun c => [c.toUpper]
  isAlnum_ascii := fun _ _ => rfl
  upper_ascii := fun _ _ => rfl
  upper_alnum := by
    intro c known d member
    obtain rfl := List.mem_singleton.mp member
    have capital : c.toUpper.isAlphanum = true := by
      rw [Char.isAlphanum, Char.isAlpha_toUpper_eq_isAlpha]
      cases small : c.isLower with
      | true => simp [Char.isAlpha, small]
      | false =>
          rw [Char.toUpper_eq_of_not_isLower (by simp [small])]
          exact known
    constructor
    · intro same
      rw [same] at capital
      exact absurd capital (by decide)
    · by_contra blank
      simp only [Bool.not_eq_false, Char.isAlphanum, Char.isAlpha, Char.isUpper, Char.isLower, Char.isDigit,
        Text.isSpace, Bool.or_eq_true, Bool.and_eq_true, decide_eq_true_eq, UInt32.le_iff_toNat_le, Char.toNat_val,
        ge_iff_le, Char.reduceVal, UInt32.reduceToNat, List.mem_cons, List.not_mem_nil, or_false] at capital blank
      omega

def asciiAuth : WebAuth :=
  ⟨Text.asciiLower, fun password encoded => password = encoded, fun _ => false, fun _ password => password, id⟩

theorem secrets_apart_ann :
    secretRefFor asciiAuth asciiLetters "Ann.Lee" ≠ secretRefFor asciiAuth asciiLetters "bob.lee" :=
  ((secrets_apart_iff asciiAuth asciiLetters "Ann.Lee" "bob.lee" "ann.lee" "bob.lee" (by decide +kernel)
    (by decide +kernel)).mpr (by decide +kernel)).1

/-- `ann.lee` and `ann_lee` are two names with one entry. -/
theorem dotted_name_shares :
    "ann.lee" ≠ "ann_lee" ∧ asciiAuth.normalizeUsername "ann.lee" = some "ann.lee" ∧
      asciiAuth.normalizeUsername "ann_lee" = some "ann_lee" ∧
      secretRefFor asciiAuth asciiLetters "ann.lee" = secretRefFor asciiAuth asciiLetters "ann_lee" := by
  decide +kernel

end DbaBrain.Db.WebAuthStore
