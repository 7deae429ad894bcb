import DbaBrain.Db.CopyText
import DbaBrain.Foundation.Lines

/-!
# Paging a log from its end

A log is read backwards in chunks of bytes, a page of its newest lines at a time, and
the next page ends where this one's oldest line begins, as counted from its text.
-/

namespace DbaBrain.Lib.LogTail

open DbaBrain.Foundation DbaBrain.Foundation.Lines
open DbaBrain.Db.CopyText (utf8 utf8Lead utf8Continue utf8Next replacement decodeReplace decodeReplaceFrom)

/-! ## Lines -/

/-- What `str.isdigit` and `str.upper` say of text. -/
structure Python where
  isDigit : Char → Bool
  upper : List Char → List Char

structure LogLine where
  text : List Char
  timestamp : List Char
  level : List Char
  app : List Char
  host : List Char
  function : List Char
  message : List Char

/-- `text.rstrip("\r\n")`. -/
def withoutLineEnd (text : List Char) : List Char :=
  (text.reverse.dropWhile fun c => c = '\r' || c = '\n').reverse

/-- `text.split(sign, most)`. -/
def splitMost (sign : Char) (most : Nat) (text : List Char) : List (List Char) :=
  let parts := text.splitOn sign
  if parts.length ≤ most + 1 then parts else parts.take most ++ [[sign].intercalate (parts.drop most)]

/-- `_FUNCTION_NAME`. -/
def isFunctionName : List Char → Bool
  | [] => false
  | first :: rest =>
      (first.isAlpha || first = '_') && rest.length ≤ 79 && rest.all fun c => c.isAlphanum || c = '_' || c = '.'

def looksLikeTimestamp (python : Python) (value : List Char) : Bool :=
  let text := Text.stripChars value
  let isNumber (digits : List Char) := digits ≠ [] && digits.all python.isDigit
  19 ≤ text.length && text[4]? = some '-' && text[7]? = some '-' && text[10]? = some ' ' && text[13]? = some ':' &&
    text[16]? = some ':' && isNumber (text.take 4) && isNumber ((text.take 7).drop 5) &&
    isNumber ((text.take 10).drop 8)

def parseLine (python : Python) (text : List Char) : LogLine :=
  let raw := withoutLineEnd text
  match splitMost '|' 5 raw with
  | timestamp :: level :: app :: host :: rest =>
      if rest = [] ∨ looksLikeTimestamp python timestamp = false then ⟨raw, [], [], [], [], [], raw⟩
      else
        let (function, message) :=
          match rest with
          | [function, message] =>
              if isFunctionName (Text.stripChars function) then (function, message)
              else ([], ['|'].intercalate rest)
          | _ => ([], ['|'].intercalate rest)
        ⟨raw, Text.stripChars timestamp, python.upper (Text.stripChars level), Text.stripChars app,
          Text.stripChars host, Text.stripChars function, Text.stripChars message⟩
  | _ => ⟨raw, [], [], [], [], [], raw⟩

/-! ## A page -/

/-- `not line.strip()`. -/
def isBlank (line : List Char) : Bool := line.all Text.isSpace

def newest (lines : List (List Char)) : List (List Char) := lines.reverse.filter fun line => !isBlank line

structure Reading where
  position : Nat
  fragment : List Char
  collected : List (List Char)

/-- A chunk before what has been read. -/
def readChunk (bytes : List UInt8) (chunkBytes : Nat) (reading : Reading) : Reading :=
  let readSize := min chunkBytes reading.position
  let position := reading.position - readSize
  let chunk := decodeReplace ((bytes.drop position).take readSize)
  let parts := (chunk ++ reading.fragment).splitOn '\n'
  -- away from the start of the file the first part is half a line
  if 0 < position then ⟨position, parts.headD [], reading.collected ++ newest parts.tail⟩
  else ⟨position, [], reading.collected ++ newest parts⟩

theorem readChunk_position (bytes : List UInt8) (chunkBytes : Nat) (reading : Reading) :
    (readChunk bytes chunkBytes reading).position = reading.position - min chunkBytes reading.position := by
  unfold readChunk
  dsimp only
  split_ifs <;> rfl

/-- The loop of `read_tail`. -/
def readBack (bytes : List UInt8) (limit chunkBytes : Nat) (filled : 0 < chunkBytes) (reading : Reading) : Reading :=
  if 0 < reading.position ∧ reading.collected.length < limit then
    readBack bytes limit chunkBytes filled (readChunk bytes chunkBytes reading)
  else reading
termination_by reading.position
decreasing_by
  rw [readChunk_position]
  omega

structure Page where
  lines : List LogLine
  nextBefore : Option Nat
  size : Nat
  exhausted : Bool

/-- `sum(len(line.encode("utf-8")) + 1 for line in lines)`. -/
def encodedLength (lines : List (List Char)) : Nat := (lines.map fun line => (utf8 line).length + 1).sum

/-- The bytes a page is counted as, read up to a line end or not. -/
def consumed (ended : Bool) (lines : List (List Char)) : Nat :=
  if lines ≠ [] ∧ ended = false then encodedLength lines - 1 else encodedLength lines

def readTail (python : Python) (file : Option (List UInt8)) (limit : Nat) (before : Option Int) (chunkBytes : Nat)
    (filled : 0 < chunkBytes) : Page :=
  match file with
  | none => ⟨[], none, 0, true⟩
  | some bytes =>
      let size := bytes.length
      let stop := match before with
        | none => size
        | some before => (max 0 (min before size)).toNat
      if stop = 0 then ⟨[], none, size, true⟩
      else
        let ended := decide (bytes[stop - 1]? = some 10)
        let lines := (readBack bytes limit chunkBytes filled ⟨stop, [], []⟩).collected.take limit
        let nextBefore := stop - consumed ended lines
        ⟨lines.map (parseLine python), if 0 < nextBefore ∧ lines.length = limit then some nextBefore else none, size,
          nextBefore = 0 || lines.length < limit⟩

/-! ## What is read -/

section Reading

variable {bytes : List UInt8} {limit chunkBytes : Nat}

/-- The text of bytes decoded a chunk at a time, the chunks cut from the end. -/
def readText (chunkBytes : Nat) (filled : 0 < chunkBytes) (bytes : List UInt8) : List Char :=
  if bytes = [] then []
  else
    readText chunkBytes filled (bytes.take (bytes.length - chunkBytes)) ++
      decodeReplace (bytes.drop (bytes.length - chunkBytes))
termination_by bytes.length
decreasing_by
  have stated : 0 < bytes.length := List.length_pos_iff.mpr ‹_›
  rw [List.length_take]
  omega

def readLines (chunkBytes : Nat) (filled : 0 < chunkBytes) (bytes : List UInt8) : List (List Char) :=
  (readText chunkBytes filled bytes).splitOn '\n'

@[simp] theorem newest_append (front back : List (List Char)) : newest (front ++ back) = newest back ++ newest front :=
by
  simp [newest]

/-- What a reading has collected of the text behind its position, but for the line it stands in. -/
def Reads (reading : Reading) (text : List Char) : Prop :=
  ∃ lines, text.splitOn '\n' = (if 0 < reading.position then [reading.fragment] else []) ++ lines ∧
    reading.collected = newest lines

theorem readChunk_reads {reading : Reading} {text : List Char} (ahead : 0 < reading.position)
    (reads : Reads reading text) :
    Reads (readChunk bytes chunkBytes reading)
      (decodeReplace ((bytes.take reading.position).drop (reading.position - chunkBytes)) ++ text) := by
  obtain ⟨lines, parts, collected⟩ := reads
  rw [if_pos ahead, List.singleton_append] at parts
  have chunk : (bytes.drop (reading.position - min chunkBytes reading.position)).take
      (min chunkBytes reading.position) = (bytes.take reading.position).drop (reading.position - chunkBytes) := by
    rw [List.drop_take]
    congr 1
    · omega
    · congr 1
      omega
  unfold readChunk
  dsimp only
  rw [chunk]
  generalize decodeReplace ((bytes.take reading.position).drop (reading.position - chunkBytes)) = before
  have more := splitOn_append_of_splitOn_eq_cons before parts
  split_ifs with within
  · obtain ⟨first, others, split⟩ := List.exists_cons_of_ne_nil (List.splitOn_ne_nil '\n' (before ++ reading.fragment))
    rw [split] at more ⊢
    refine ⟨others ++ lines, ?_, ?_⟩
    · rw [more, if_pos within]
      rfl
    · rw [newest_append, collected]
      rfl
  · refine ⟨(before ++ reading.fragment).splitOn '\n' ++ lines, ?_, ?_⟩
    · rw [if_neg within, List.nil_append]
      exact more
    · rw [newest_append, collected]

/-- The loop collects the newest lines of the text as it is read, as many as are wanted. -/
theorem readBack_collected (filled : 0 < chunkBytes) {reading : Reading} (inside : reading.position ≤ bytes.length)
    {text : List Char} (reads : Reads reading text) :
    (readBack bytes limit chunkBytes filled reading).collected.take limit =
      (newest ((readText chunkBytes filled (bytes.take reading.position) ++ text).splitOn '\n')).take limit := by
  fun_induction readBack bytes limit chunkBytes filled reading generalizing text with
  | case1 reading more ih =>
    have length : (bytes.take reading.position).length = reading.position := List.length_take_of_le inside
    have stated : bytes.take reading.position ≠ [] := List.ne_nil_of_length_pos (by omega)
    have position := readChunk_position bytes chunkBytes reading
    have before : (bytes.take reading.position).take (reading.position - chunkBytes) =
        bytes.take (readChunk bytes chunkBytes reading).position := by
      rw [List.take_take, position]
      congr 1
      omega
    rw [ih (by omega) (readChunk_reads more.1 reads), readText.eq_def _ _ (bytes.take reading.position),
      if_neg stated,
      length, before, List.append_assoc]
  | case2 reading done =>
    obtain ⟨lines, parts, collected⟩ := reads
    by_cases ahead : 0 < reading.position
    · have enough : limit ≤ (newest lines).length := by
        rw [← collected]
        exact not_lt.mp fun fewer => done ⟨ahead, fewer⟩
      rw [if_pos ahead, List.singleton_append] at parts
      rw [splitOn_append_of_splitOn_eq_cons _ parts, newest_append, List.take_append_of_le_length enough, collected]
    · have start : reading.position = 0 := by omega
      rw [if_neg ahead, List.nil_append] at parts
      rw [start, List.take_zero, readText, if_pos rfl, List.nil_append, parts, collected]

end Reading

/-! ## Bytes and lines -/

section Decoding
variable {more low high : Nat}

theorem utf8Continue_append {code : Nat} (above : 10 < low) (front back : List UInt8) :
    utf8Continue code more low high (front ++ 10 :: back) = utf8Continue code more low high front := by
  induction front generalizing code more low high with
  | nil =>
    cases more with
    | zero => rfl
    | succ more =>
      have outside : ¬ (low ≤ (10 : UInt8).toNat ∧ (10 : UInt8).toNat ≤ high) := fun within =>
        absurd (show low ≤ 10 from within.1) (by omega)
      exact if_neg outside
  | cons byte front ih =>
    cases more with
    | zero => rfl
    | succ more => rw [List.cons_append, utf8Continue, utf8Continue, ih (by decide)]

/-- The bytes that continue a character are there. -/
theorem utf8Continue_taken (code more low high : Nat) (bytes : List UInt8) :
    (∀ read, utf8Continue code more low high bytes = .inl read → more ≤ bytes.length) ∧
      ∀ taken, utf8Continue code more low high bytes = .inr taken → taken ≤ bytes.length := by
  induction bytes generalizing code more low high with
  | nil =>
    cases more with
    | zero => exact ⟨fun _ _ => le_refl _, fun _ impossible => (nomatch impossible)⟩
    | succ more =>
      refine ⟨fun _ impossible => (nomatch impossible), fun taken read => ?_⟩
      cases read
      exact le_refl _
  | cons byte bytes ih =>
    cases more with
    | zero => exact ⟨fun _ _ => Nat.zero_le _, fun _ impossible => (nomatch impossible)⟩
    | succ more =>
      obtain ⟨whole, cut⟩ := ih (code * 64 + (byte.toNat - 0x80)) more 0x80 0xBF
      rw [utf8Continue, List.length_cons]
      split_ifs with within
      · cases later : utf8Continue (code * 64 + (byte.toNat - 0x80)) more 0x80 0xBF bytes with
        | inl read =>
          refine ⟨fun _ _ => ?_, fun _ impossible => (nomatch impossible)⟩
          exact Nat.succ_le_succ (whole read later)
        | inr taken =>
          refine ⟨fun _ impossible => (nomatch impossible), fun more same => ?_⟩
          cases same
          exact Nat.succ_le_succ (cut taken later)
      · refine ⟨fun _ impossible => (nomatch impossible), fun taken same => ?_⟩
        cases same
        exact Nat.zero_le _

theorem utf8Lead_low {byte bits : Nat} (lead : utf8Lead byte = some (bits, more, low, high)) :
    more = 0 ∧ bits = byte ∨ 0 < more ∧ 0x80 ≤ low ∧ 0x80 ≤ (bits * 64 + (low - 0x80)) * 64 ^ (more - 1) := by
  unfold utf8Lead at lead
  split_ifs at lead <;> simp only [Option.some.injEq, Prod.mk.injEq] at lead <;> obtain ⟨rfl, rfl, rfl, rfl⟩ := lead <;>
    simp <;> omega

theorem utf8Next_append (byte : UInt8) (front back : List UInt8) :
    utf8Next byte (front ++ 10 :: back) = utf8Next byte front ∧ (utf8Next byte front).2 ≤ front.length := by
  unfold utf8Next
  cases lead : utf8Lead byte.toNat with
  | none => exact ⟨rfl, Nat.zero_le _⟩
  | some read =>
    obtain ⟨bits, more, low, high⟩ := read
    have same : utf8Continue bits more low high (front ++ 10 :: back) = utf8Continue bits more low high front := by
      rcases utf8Lead_low lead with ⟨rfl, -⟩ | ⟨-, above, -⟩
      · cases front <;> rfl
      · exact utf8Continue_append (by omega) front back
    obtain ⟨whole, cut⟩ := utf8Continue_taken bits more low high front
    dsimp only
    rw [same]
    cases read : utf8Continue bits more low high front with
    | inl code => exact ⟨rfl, whole code read⟩
    | inr taken => exact ⟨rfl, cut taken read⟩

/-- A line feed is never part of a character. -/
theorem decodeReplace_append (front back : List UInt8) :
    decodeReplace (front ++ 10 :: back) = decodeReplace front ++ '\n' :: decodeReplace back := by
  have general (front : List UInt8) : ∀ taken ≤ front.length,
      decodeReplaceFrom taken (front ++ 10 :: back) = decodeReplaceFrom taken front ++ '\n' :: decodeReplace back := by
    induction front with
    | nil =>
      intro taken within
      rw [Nat.le_zero.mp within]
      rfl
    | cons byte front ih =>
      intro taken within
      cases taken with
      | succ taken => exact ih taken (Nat.succ_le_succ_iff.mp within)
      | zero =>
        obtain ⟨same, inside⟩ := utf8Next_append byte front back
        rw [List.cons_append, decodeReplaceFrom, same, ih _ inside, decodeReplaceFrom, List.cons_append]
  exact general front 0 (Nat.zero_le _)

theorem utf8Continue_ge {code read : Nat} {bytes : List UInt8} (stated : 0 < more)
    (whole : utf8Continue code more low high bytes = .inl read) :
    (code * 64 + (low - 0x80)) * 64 ^ (more - 1) ≤ read := by
  induction bytes generalizing code more low high read with
  | nil =>
    cases more with
    | zero => cases stated
    | succ more => cases whole
  | cons byte bytes ih =>
    cases more with
    | zero => cases stated
    | succ more =>
      rw [utf8Continue] at whole
      split_ifs at whole with within
      have first : code * 64 + (low - 0x80) ≤ code * 64 + (byte.toNat - 0x80) := by omega
      cases later : utf8Continue (code * 64 + (byte.toNat - 0x80)) more 0x80 0xBF bytes with
      | inr taken =>
        rw [later] at whole
        cases whole
      | inl found =>
        rw [later] at whole
        cases whole
        cases more with
        | zero =>
          have same : found = code * 64 + (byte.toNat - 0x80) := by
            cases bytes <;> exact (Sum.inl.inj later).symm
          rw [same]
          simpa using first
        | succ more =>
          have bound := ih (Nat.succ_pos more) later
          calc (code * 64 + (low - 0x80)) * 64 ^ (more + 1 + 1 - 1)
              ≤ (code * 64 + (byte.toNat - 0x80)) * 64 ^ (more + 1) := Nat.mul_le_mul_right _ first
            _ = ((code * 64 + (byte.toNat - 0x80)) * 64 + (0x80 - 0x80)) * 64 ^ (more + 1 - 1) := by
                rw [Nat.add_sub_cancel, pow_succ]
                ring
            _ ≤ found := bound

/-- The line feed has one spelling. -/
theorem utf8Next_eq_newline {byte : UInt8} {rest : List UInt8} (newline : (utf8Next byte rest).1 = '\n') :
    byte = 10 := by
  have spelled {code : Nat} (same : Char.ofNat code = '\n') : code = 10 := by
    by_cases valid : code.isValidChar
    · have number := congrArg Char.toNat same
      rwa [Char.toNat_ofNat, if_pos valid] at number
    · rw [Char.ofNat, dif_neg valid] at same
      exact absurd same (by decide)
  unfold utf8Next at newline
  cases lead : utf8Lead byte.toNat with
  | none =>
    rw [lead] at newline
    exact absurd (show replacement = '\n' from newline) (by decide)
  | some read =>
    obtain ⟨bits, more, low, high⟩ := read
    rw [lead] at newline
    dsimp only at newline
    cases whole : utf8Continue bits more low high rest with
    | inr taken =>
      rw [whole] at newline
      exact absurd (show replacement = '\n' from newline) (by decide)
    | inl code =>
      rw [whole] at newline
      have ten := spelled newline
      rcases utf8Lead_low lead with ⟨rfl, rfl⟩ | ⟨stated, -, large⟩
      · have same : code = byte.toNat := by cases rest <;> exact (Sum.inl.inj whole).symm
        exact UInt8.toNat_inj.mp (same.symm.trans ten)
      · have bound := utf8Continue_ge stated whole
        omega

def linesOf (bytes : List UInt8) : List (List Char) := (bytes.splitOn 10).map decodeReplace

theorem newline_notMem_decodeReplace {bytes : List UInt8} (line : 10 ∉ bytes) : '\n' ∉ decodeReplace bytes := by
  have general (bytes : List UInt8) : ∀ taken, '\n' ∈ decodeReplaceFrom taken bytes → 10 ∈ bytes := by
    induction bytes with
    | nil =>
      intro taken member
      cases taken <;> exact absurd member List.not_mem_nil
    | cons byte bytes ih =>
      intro taken member
      cases taken with
      | succ taken => exact List.mem_cons_of_mem _ (ih taken member)
      | zero =>
        rcases List.mem_cons.mp member with newline | later
        · rw [utf8Next_eq_newline newline.symm]
          exact List.mem_cons_self
        · exact List.mem_cons_of_mem _ (ih _ later)
  exact fun member => line (general bytes 0 member)

theorem splitOn_decodeReplace (bytes : List UInt8) : (decodeReplace bytes).splitOn '\n' = linesOf bytes := by
  unfold linesOf
  induction shown : bytes.length using Nat.strong_induction_on generalizing bytes with
  | _ length ih =>
    by_cases ended : (10 : UInt8) ∈ bytes
    · obtain ⟨line, rest, rfl, unbroken⟩ := List.eq_append_cons_of_mem ended
      have shorter : rest.length < length := by
        rw [← shown, List.length_append, List.length_cons]
        omega
      rw [decodeReplace_append, List.splitOn_append_cons_self_of_not_mem (newline_notMem_decodeReplace unbroken),
        List.splitOn_append_cons_self_of_not_mem unbroken, ih _ shorter rest rfl, List.map_cons]
    · rw [List.splitOn_eq_singleton (newline_notMem_decodeReplace ended), List.splitOn_eq_singleton ended]
      rfl

end Decoding

/-! ## Pages -/

section Pages

variable (python : Python) (bytes : List UInt8) (limit chunkBytes : Nat) (filled : 0 < chunkBytes)

def rows : List LogLine := (newest (linesOf bytes)).map (parseLine python)

/-- The lines a page shows of the bytes before its end. -/
def shownLines : List (List Char) := (newest (readLines chunkBytes filled bytes)).take limit

def isEnded : Bool := bytes.getLast? = some 10

def nextPlace : Nat :=
  bytes.length - consumed (isEnded bytes) (shownLines bytes limit chunkBytes filled)

theorem newest_nil_line : newest [[]] = [] := rfl

theorem shownLines_nil : shownLines [] limit chunkBytes filled = [] := by
  have text : readText chunkBytes filled [] = [] := by rw [readText, if_pos rfl]
  rw [shownLines, readLines, text, List.splitOn_nil, newest_nil_line, List.take_nil]

theorem readTail_page (before : Option Nat) :
    (readTail python (some bytes) limit (before.map Int.ofNat) chunkBytes filled).lines =
        (shownLines (bytes.take (before.getD bytes.length)) limit chunkBytes filled).map (parseLine python) ∧
      (readTail python (some bytes) limit (before.map Int.ofNat) chunkBytes filled).nextBefore =
        if 0 < nextPlace (bytes.take (before.getD bytes.length)) limit chunkBytes filled ∧
            (shownLines (bytes.take (before.getD bytes.length)) limit chunkBytes filled).length = limit then
          some (nextPlace (bytes.take (before.getD bytes.length)) limit chunkBytes filled)
        else none := by
  obtain ⟨stop, stops, region⟩ : ∃ stop ≤ bytes.length, bytes.take (before.getD bytes.length) = bytes.take stop ∧
      (match before.map Int.ofNat with
        | none => bytes.length
        | some before => (max 0 (min before bytes.length)).toNat) = stop := by
    cases before with
    | none => exact ⟨bytes.length, le_refl _, rfl, rfl⟩
    | some before =>
      refine ⟨min before bytes.length, min_le_right _ _, ?_, ?_⟩
      · rw [Option.getD_some]
        rcases le_total before bytes.length with within | beyond
        · rw [min_eq_left within]
        · rw [min_eq_right beyond, List.take_of_length_le beyond, List.take_length]
      · change (max 0 (min (before : Int) bytes.length)).toNat = _
        omega
  rw [region.1]
  unfold readTail
  dsimp only
  rw [region.2]
  have length : (bytes.take stop).length = stop := List.length_take_of_le stops
  by_cases start : stop = 0
  · rw [if_pos start, start, List.take_zero, shownLines_nil]
    refine ⟨rfl, (if_neg ?_).symm⟩
    exact fun more => absurd more.1 (Nat.not_lt.mpr (Nat.sub_le _ _))
  · have collected := @readBack_collected bytes limit chunkBytes filled ⟨stop, [], []⟩ stops [] ⟨[], by
      rw [if_pos (Nat.pos_of_ne_zero start)]
      exact ⟨rfl, rfl⟩⟩
    rw [List.append_nil] at collected
    have ended : decide (bytes[stop - 1]? = some 10) = isEnded (bytes.take stop) := by
      rw [isEnded, List.getLast?_eq_getElem?, length, List.getElem?_take_of_lt (by omega)]
    rw [if_neg start, collected, ended]
    unfold nextPlace
    rw [length]
    exact ⟨rfl, rfl⟩

end Pages

/-! ## Where the next page ends -/

section Places

/-- The lines a page passes until it has as many that are not blank, newest first. -/
def passed : Nat → List (List UInt8) → List (List UInt8)
  | 0, _ => []
  | _ + 1, [] => []
  | limit + 1, line :: older => line :: passed (if isBlank (decodeReplace line) then limit + 1 else limit) older

/-- The bytes of lines, each with its end. -/
def byteLength (lines : List (List UInt8)) : Nat := (lines.map fun line => line.length + 1).sum

/-- How far a line moves the place counted from the text of a page: a blank line is not counted, and a character put for
bytes that are none is counted as its own encoding. -/
def drift (line : List UInt8) : Int :=
  if isBlank (decodeReplace line) then line.length + 1
  else line.length - (utf8 (decodeReplace line)).length

variable (bytes : List UInt8) (limit : Nat)

/-- Where the oldest line of a page begins. -/
def start : Nat := bytes.length + 1 - byteLength (passed limit (bytes.splitOn 10).reverse)

/-- The place counted from the text of a page. -/
def place : Int :=
  start bytes limit + ((passed limit (bytes.splitOn 10).reverse).map drift).sum - if isEnded bytes then 1 else 0

/-- The lines of a text, without the blank ones. -/
def stated (lines : List (List UInt8)) : List (List Char) := (lines.map decodeReplace).filter fun line => !isBlank line

theorem stated_append (front back : List (List UInt8)) : stated (front ++ back) = stated front ++ stated back := by
  simp [stated]

theorem newest_linesOf : newest (linesOf bytes) = stated (bytes.splitOn 10).reverse := by
  rw [newest, linesOf, stated, List.map_reverse]

theorem stated_passed (lines : List (List UInt8)) : stated (passed limit lines) = (stated lines).take limit := by
  unfold stated
  induction lines generalizing limit with
  | nil => cases limit <;> rfl
  | cons line lines ih =>
    cases limit with
    | zero => rfl
    | succ limit =>
      rw [passed, List.map_cons, List.map_cons]
      cases blank : isBlank (decodeReplace line) with
      | true => simpa [blank] using ih (limit + 1)
      | false => simpa [blank] using ih limit

theorem passed_isPrefix (lines : List (List UInt8)) : passed limit lines <+: lines := by
  induction lines generalizing limit with
  | nil => cases limit <;> exact List.prefix_refl _
  | cons line lines ih =>
    cases limit with
    | zero => exact List.nil_prefix
    | succ limit => exact List.cons_prefix_cons.mpr ⟨rfl, ih _⟩

/-- A line takes the bytes it is counted as and its drift. -/
theorem byteLength_eq (lines : List (List UInt8)) :
    (byteLength lines : Int) = encodedLength (stated lines) + (lines.map drift).sum := by
  unfold byteLength encodedLength stated
  induction lines with
  | nil => rfl
  | cons line lines ih =>
    simp only [List.map_cons, List.sum_cons, Nat.cast_add, ih, drift]
    cases blank : isBlank (decodeReplace line) with
    | true =>
      simp [blank]
      ring
    | false =>
      simp [blank]
      ring

theorem length_flatMap_line (lines : List (List UInt8)) :
    (lines.flatMap fun line => line ++ [10]).length = byteLength lines := by
  simp [byteLength, List.length_flatMap]

theorem byteLength_append (front back : List (List UInt8)) :
    byteLength (front ++ back) = byteLength front + byteLength back := by
  rw [byteLength, List.map_append, List.sum_append, byteLength, byteLength]

theorem byteLength_reverse (lines : List (List UInt8)) : byteLength lines.reverse = byteLength lines := by
  rw [byteLength, List.map_reverse, List.sum_reverse, byteLength]

theorem byteLength_splitOn : byteLength (bytes.splitOn 10).reverse = bytes.length + 1 := by
  rw [byteLength_reverse, ← length_flatMap_line, flatMap_splitOn, List.length_append, List.length_singleton]

theorem byteLength_passed_le : byteLength (passed limit (bytes.splitOn 10).reverse) ≤ bytes.length + 1 := by
  obtain ⟨older, split⟩ := passed_isPrefix limit (bytes.splitOn 10).reverse
  rw [← byteLength_splitOn bytes, ← split, byteLength_append, split]
  exact Nat.le_add_right _ _

variable {bytes limit}

/-- The bytes before a page's oldest line are its older lines. -/
theorem take_start (wanted : 0 < limit) : ∃ older, (bytes.splitOn 10).reverse =
    passed limit (bytes.splitOn 10).reverse ++ older ∧ (∀ line ∈ older, 10 ∉ line) ∧
      bytes.take (start bytes limit) = older.reverse.flatMap fun line => line ++ [10] := by
  obtain ⟨older, split⟩ := passed_isPrefix limit (bytes.splitOn 10).reverse
  refine ⟨older, split.symm, ?_, ?_⟩
  · intro line member
    have inside : line ∈ (bytes.splitOn 10).reverse := by
      rw [← split]
      exact List.mem_append_right _ member
    exact notMem_of_mem_splitOn (List.mem_reverse.mp inside)
  · have whole := flatMap_splitOn 10 bytes
    have parts : bytes.splitOn 10 = older.reverse ++ (passed limit (bytes.splitOn 10).reverse).reverse := by
      rw [← List.reverse_append, split, List.reverse_reverse]
    have some_line : 0 < byteLength (passed limit (bytes.splitOn 10).reverse) := by
      obtain ⟨line, lines, shown⟩ := List.exists_cons_of_ne_nil
        (show (bytes.splitOn 10).reverse ≠ [] by simp)
      obtain ⟨fewer, rfl⟩ := Nat.exists_eq_succ_of_ne_zero wanted.ne'
      rw [shown, Nat.succ_eq_add_one, passed, byteLength, List.map_cons, List.sum_cons]
      omega
    have begins : start bytes limit = (older.reverse.flatMap fun line => line ++ [(10 : UInt8)]).length := by
      have length := byteLength_splitOn bytes
      rw [← split, byteLength_append] at length
      rw [length_flatMap_line, byteLength_reverse, start]
      omega
    rw [parts, List.flatMap_append] at whole
    have within : start bytes limit ≤ bytes.length := by
      rw [start]
      omega
    rw [← List.take_append_of_le_length within, ← whole, begins, List.take_left]

/-- Below a page's oldest line are the lines it leaves. -/
theorem rows_take_start (python : Python) (wanted : 0 < limit) :
    rows python (bytes.take (start bytes limit)) = (rows python bytes).drop limit := by
  obtain ⟨older, split, unbroken, before⟩ := @take_start bytes limit wanted
  have left : stated older = (stated (bytes.splitOn 10).reverse).drop limit := by
    have all := congrArg stated split
    rw [stated_append, stated_passed] at all
    exact List.append_cancel_left (all.symm.trans (List.take_append_drop limit _).symm)
  have lines : newest (linesOf (bytes.take (start bytes limit))) = stated older := by
    rw [newest_linesOf, before, splitOn_flatMap fun line member => unbroken line (List.mem_reverse.mp member),
      List.reverse_append, List.reverse_reverse, stated_append]
    rfl
  rw [rows, rows, lines, left, newest_linesOf, List.map_drop]

/-- The place the next page ends at is the one counted from the lines. -/
theorem nextPlace_eq_place {chunkBytes : Nat} {filled : 0 < chunkBytes} (wanted : 0 < limit)
    (whole : shownLines bytes limit chunkBytes filled = (newest (linesOf bytes)).take limit)
    (full : (shownLines bytes limit chunkBytes filled).length = limit) :
    nextPlace bytes limit chunkBytes filled = (place bytes limit).toNat := by
  have shown : shownLines bytes limit chunkBytes filled = stated (passed limit (bytes.splitOn 10).reverse) := by
    rw [whole, stated_passed, newest_linesOf]
  have counted := byteLength_eq (passed limit (bytes.splitOn 10).reverse)
  have some_line : shownLines bytes limit chunkBytes filled ≠ [] := List.ne_nil_of_length_pos (by omega)
  have some_byte : 0 < encodedLength (shownLines bytes limit chunkBytes filled) := by
    obtain ⟨line, lines, first⟩ := List.exists_cons_of_ne_nil some_line
    rw [first, encodedLength, List.map_cons, List.sum_cons]
    omega
  have inside := byteLength_passed_le bytes limit
  rw [← shown] at counted
  unfold nextPlace place start consumed
  cases isEnded bytes with
  | true =>
    rw [if_neg (by simp), if_pos rfl]
    omega
  | false =>
    rw [if_pos ⟨some_line, rfl⟩, if_neg Bool.false_ne_true]
    omega

end Places

/-! ## Page after page -/

/-- A log being paged, or read to its start, with the lines shown so far. -/
inductive Session
  | reading (before : Option Nat) (shown : List LogLine)
  | finished (shown : List LogLine)

def Session.shown : Session → List LogLine
  | .reading _ shown | .finished shown => shown

/-- The bytes before the place the next page ends at. -/
def Session.remaining (bytes : List UInt8) : Session → List UInt8
  | .reading before _ => bytes.take (before.getD bytes.length)
  | .finished _ => []

section Paging

variable (python : Python) (bytes : List UInt8) (limit chunkBytes : Nat) (filled : 0 < chunkBytes)

/-- The next page, asked for with the last one's `next_before`. -/
def follow : Session → Session
  | .reading before shown =>
      let page := readTail python (some bytes) limit (before.map Int.ofNat) chunkBytes filled
      match page.nextBefore with
      | some next => .reading (some next) (shown ++ page.lines)
      | none => .finished (shown ++ page.lines)
  | .finished shown => .finished shown

/-- The pages asked for one after another, from the end of the log. -/
def reached (count : Nat) : Session := (follow python bytes limit chunkBytes filled)^[count] (.reading none [])

/-- The lines shown and those before the next page are those of the log, each once. -/
def Right (session : Session) : Prop :=
  session.shown ++ rows python (session.remaining bytes) = rows python bytes

/-- A page's lines are read as the log has them, though chunk by chunk. -/
def Whole (region : List UInt8) : Prop :=
  shownLines region limit chunkBytes filled = (newest (linesOf region)).take limit

/-- Where a page is full, the lines before the place counted from it are those before its oldest line. -/
def Counted (region : List UInt8) : Prop :=
  limit ≤ (rows python region).length →
    rows python (region.take (place region limit).toNat) = rows python (region.take (start region limit))

variable {python bytes limit chunkBytes filled}

theorem rows_nil : rows python [] = [] := rfl

theorem shown_reading (before : Option Nat) (shown : List LogLine) : (Session.reading before shown).shown = shown := rfl

theorem remaining_reading (before : Option Nat) (shown : List LogLine) :
    (Session.reading before shown).remaining bytes = bytes.take (before.getD bytes.length) := rfl

/-- What one page does. -/
theorem follow_reading (before : Option Nat) (shown : List LogLine) :
    follow python bytes limit chunkBytes filled (.reading before shown) =
      let region := bytes.take (before.getD bytes.length)
      let lines := shownLines region limit chunkBytes filled
      if 0 < nextPlace region limit chunkBytes filled ∧ lines.length = limit then
        .reading (some (nextPlace region limit chunkBytes filled)) (shown ++ lines.map (parseLine python))
      else .finished (shown ++ lines.map (parseLine python)) := by
  obtain ⟨lines, next⟩ := readTail_page python bytes limit chunkBytes filled before
  unfold follow
  dsimp only
  rw [next, lines]
  split_ifs <;> rfl

theorem follow_leaves (before : Option Nat) (shown : List LogLine) :
    let region := bytes.take (before.getD bytes.length)
    let lines := shownLines region limit chunkBytes filled
    (follow python bytes limit chunkBytes filled (.reading before shown)).shown = shown ++
      lines.map (parseLine python) ∧
      (follow python bytes limit chunkBytes filled (.reading before shown)).remaining bytes =
        if lines.length = limit then region.take (nextPlace region limit chunkBytes filled) else [] := by
  dsimp only
  rw [follow_reading]
  dsimp only
  generalize shown_page : bytes.take (before.getD bytes.length) = region
  have inside : nextPlace region limit chunkBytes filled ≤ before.getD bytes.length := by
    rw [← shown_page]
    exact le_trans (Nat.sub_le _ _) (List.length_take_le _ _)
  split_ifs with more full full
  · refine ⟨rfl, ?_⟩
    rw [← shown_page, List.take_take, shown_page, min_eq_left inside]
    rfl
  · exact absurd more.2 full
  · have none_left : nextPlace region limit chunkBytes filled = 0 := by
      by_contra left
      exact more ⟨Nat.pos_of_ne_zero left, full⟩
    rw [none_left, List.take_zero]
    exact ⟨rfl, rfl⟩
  · exact ⟨rfl, rfl⟩

/-- A page of whole lines leaves the log right exactly if its place is counted. -/
theorem follow_right_iff (wanted : 0 < limit) {session : Session}
    (whole : Whole limit chunkBytes filled (session.remaining bytes)) (right : Right python bytes session) :
    Right python bytes (follow python bytes limit chunkBytes filled session) ↔
      Counted python limit (session.remaining bytes) := by
  cases session with
  | finished shown =>
    refine iff_of_true right fun enough => ?_
    exact absurd enough (Nat.not_le.mpr wanted)
  | reading before shown =>
    obtain ⟨page, left⟩ := @follow_leaves python bytes limit chunkBytes filled before shown
    unfold Right at right ⊢
    unfold Whole at whole
    unfold Counted
    rw [remaining_reading] at right whole ⊢
    rw [page, left, ← right, List.append_assoc, shown_reading, List.append_cancel_left_eq]
    generalize bytes.take (before.getD bytes.length) = region at *
    have lines : (shownLines region limit chunkBytes filled).map (parseLine python) =
      (rows python region).take limit := by
      rw [whole, rows, List.map_take]
    have length := congrArg List.length lines
    rw [List.length_map, List.length_take] at length
    by_cases enough : limit ≤ (rows python region).length
    · have full : (shownLines region limit chunkBytes filled).length = limit := by omega
      rw [if_pos full, lines, nextPlace_eq_place wanted whole full, rows_take_start python wanted]
      constructor
      · intro same _
        exact List.append_cancel_left (same.trans (List.take_append_drop limit _).symm)
      · intro counted
        rw [counted enough, List.take_append_drop]
    · rw [if_neg (by omega), lines, rows_nil, List.append_nil, List.take_of_length_le (by omega)]
      exact iff_of_true rfl fun impossible => absurd impossible enough

/-- A page with lines is counted as some bytes. -/
theorem consumed_pos (ended : Bool) {region : List UInt8} (wanted : 0 < limit)
    (full : (shownLines region limit chunkBytes filled).length = limit) :
    0 < consumed ended (shownLines region limit chunkBytes filled) := by
  obtain ⟨line, lines, shown⟩ := List.exists_cons_of_ne_nil
    (show shownLines region limit chunkBytes filled ≠ [] from List.ne_nil_of_length_pos (by omega))
  have unblank : isBlank line = false := by
    have member : line ∈ newest (readLines chunkBytes filled region) := by
      refine List.mem_of_mem_take (i := limit) ?_
      change line ∈ shownLines region limit chunkBytes filled
      rw [shown]
      exact List.mem_cons_self
    have kept := (List.mem_filter.mp member).2
    simpa using kept
  have some_byte : 0 < (utf8 line).length := by
    cases line with
    | nil => cases unblank
    | cons c line =>
      rw [Db.CopyText.utf8, List.flatMap_cons, List.length_append, String.length_utf8EncodeChar]
      exact Nat.add_pos_left c.utf8Size_pos _
  have counted : 2 ≤ encodedLength (shownLines region limit chunkBytes filled) := by
    rw [shown, encodedLength, List.map_cons, List.sum_cons]
    omega
  unfold consumed
  split_ifs <;> omega

/-- The bytes left are fewer after every page that is not the last. -/
theorem follow_shorter (wanted : 0 < limit) {before next : Option Nat} {shown more : List LogLine}
    (page : follow python bytes limit chunkBytes filled (.reading before shown) = .reading next more) :
    ((Session.reading next more).remaining bytes).length < ((Session.reading before shown).remaining bytes).length := by
  rw [follow_reading] at page
  dsimp only at page
  split_ifs at page with full
  obtain ⟨rfl, -⟩ := Session.reading.inj page
  have taken := consumed_pos (isEnded (bytes.take (before.getD bytes.length))) wanted full.2
  have ahead := full.1
  change (bytes.take (nextPlace _ limit chunkBytes filled)).length < (bytes.take (before.getD bytes.length)).length
  refine lt_of_le_of_lt (List.length_take_le _ _) ?_
  unfold nextPlace at ahead ⊢
  omega

theorem reached_succ (count : Nat) : reached python bytes limit chunkBytes filled (count + 1) =
    follow python bytes limit chunkBytes filled (reached python bytes limit chunkBytes filled count) :=
  Function.iterate_succ_apply' _ _ _

/-- Paging comes to the start of the log. -/
theorem reached_finished (wanted : 0 < limit) :
    ∃ shown, reached python bytes limit chunkBytes filled (bytes.length + 1) = .finished shown := by
  have fewer (count : Nat) : (∃ shown, reached python bytes limit chunkBytes filled count = .finished shown) ∨
      ((reached python bytes limit chunkBytes filled count).remaining bytes).length + count ≤ bytes.length := by
    induction count with
    | zero =>
      refine Or.inr ?_
      change (bytes.take bytes.length).length + 0 ≤ bytes.length
      rw [List.take_length]
      omega
    | succ count ih =>
      rw [reached_succ]
      cases now : reached python bytes limit chunkBytes filled count with
      | finished shown => exact Or.inl ⟨shown, rfl⟩
      | reading before shown =>
        rw [now] at ih
        rcases ih with ⟨_, impossible⟩ | left
        · cases impossible
        · cases next : follow python bytes limit chunkBytes filled (.reading before shown) with
          | finished shown => exact Or.inl ⟨shown, rfl⟩
          | reading next more =>
            have shorter := follow_shorter wanted next
            exact Or.inr (by omega)
  rcases fewer (bytes.length + 1) with done | left
  · exact done
  · omega

/-- Where every page is of whole lines, the log is right all along exactly if every place is counted. -/
theorem reached_right_iff (wanted : 0 < limit) (whole : ∀ count, Whole limit chunkBytes filled
      ((reached python bytes limit chunkBytes filled count).remaining bytes)) :
    (∀ count, Right python bytes (reached python bytes limit chunkBytes filled count)) ↔
      ∀ count, Counted python limit ((reached python bytes limit chunkBytes filled count).remaining bytes) := by
  constructor
  · intro right count
    have next := right (count + 1)
    rw [reached_succ] at next
    exact (follow_right_iff wanted (whole count) (right count)).mp next
  · intro counted count
    induction count with
    | zero =>
      change [] ++ rows python (bytes.take bytes.length) = rows python bytes
      rw [List.take_length, List.nil_append]
    | succ count ih =>
      rw [reached_succ]
      exact (follow_right_iff wanted (whole count) ih).mpr (counted count)

end Paging

/-! ## Logs that are paged right -/

section Plain

variable {python : Python} {bytes region : List UInt8} {limit chunkBytes : Nat} {filled : 0 < chunkBytes}

theorem whole_of_readText (text : readText chunkBytes filled region = decodeReplace region) :
    Whole limit chunkBytes filled region := by
  rw [Whole, shownLines, readLines, text, splitOn_decodeReplace]

theorem whole_of_length_le (within : region.length ≤ chunkBytes) : Whole limit chunkBytes filled region := by
  refine whole_of_readText ?_
  rw [readText]
  split_ifs with empty
  · rw [empty]
    rfl
  · rw [Nat.sub_eq_zero_of_le within, List.take_zero, List.drop_zero, readText, if_pos rfl, List.nil_append]

/-- A log of ASCII characters without blank lines. -/
structure Plain (bytes : List UInt8) : Prop where
  ascii : ∀ byte ∈ bytes, byte.toNat < 128
  unblank : ∃ lines last, bytes.splitOn 10 = lines ++ [last] ∧ (∀ line ∈ lines, isBlank (decodeReplace line) = false) ∧
    (last = [] ∨ isBlank (decodeReplace last) = false)

theorem decodeReplace_ascii (ascii : ∀ byte ∈ bytes, byte.toNat < 128) :
    decodeReplace bytes = bytes.map fun byte => Char.ofNat byte.toNat := by
  induction bytes with
  | nil => rfl
  | cons byte bytes ih =>
    obtain ⟨first, others⟩ := List.forall_mem_cons.mp ascii
    have next : utf8Next byte bytes = (Char.ofNat byte.toNat, 0) := by
      unfold utf8Next utf8Lead
      rw [if_pos first]
      cases bytes <;> rfl
    rw [decodeReplace, decodeReplaceFrom, next, List.map_cons]
    exact congrArg _ (ih others)

theorem readText_ascii (ascii : ∀ byte ∈ region, byte.toNat < 128) :
    readText chunkBytes filled region = decodeReplace region := by
  fun_induction readText chunkBytes filled region with
  | case1 => rfl
  | case2 region stated ih =>
    have front (place : Nat) : ∀ byte ∈ region.take place, byte.toNat < 128 :=
      fun byte member => ascii byte (List.mem_of_mem_take member)
    have back (place : Nat) : ∀ byte ∈ region.drop place, byte.toNat < 128 :=
      fun byte member => ascii byte (List.mem_of_mem_drop member)
    rw [ih (front _), decodeReplace_ascii (front _), decodeReplace_ascii (back _), decodeReplace_ascii ascii,
      ← List.map_append, List.take_append_drop]

/-- A line of ASCII characters is counted as its bytes. -/
theorem length_utf8_ascii (ascii : ∀ byte ∈ bytes, byte.toNat < 128) :
    (utf8 (decodeReplace bytes)).length = bytes.length := by
  rw [decodeReplace_ascii ascii]
  induction bytes with
  | nil => rfl
  | cons byte bytes ih =>
    obtain ⟨first, others⟩ := List.forall_mem_cons.mp ascii
    have one : (Char.ofNat byte.toNat).utf8Size = 1 := by
      have valid : byte.toNat.isValidChar := Or.inl (by omega)
      have number : (Char.ofNat byte.toNat).toNat = byte.toNat := by rw [Char.toNat_ofNat, if_pos valid]
      refine Char.utf8Size_eq_one_iff.mpr (UInt32.le_iff_toNat_le.mpr ?_)
      change (Char.ofNat byte.toNat).toNat ≤ 127
      omega
    have rest := ih others
    rw [Db.CopyText.utf8] at rest ⊢
    rw [List.map_cons, List.flatMap_cons, List.length_append, String.length_utf8EncodeChar, one, rest,
      List.length_cons]
    omega

theorem drift_plain {line : List UInt8} (ascii : ∀ byte ∈ line, byte.toNat < 128)
    (unblank : isBlank (decodeReplace line) = false) : drift line = 0 := by
  rw [drift, if_neg (by rw [unblank]; exact Bool.false_ne_true), length_utf8_ascii ascii, sub_self]

/-- A page of a plain log is counted to where its oldest line begins. -/
theorem place_plain (plain : Plain bytes) (wanted : 0 < limit) (stated : bytes ≠ []) :
    place bytes limit = start bytes limit := by
  obtain ⟨ascii, lines, last, split, unblank, ending⟩ := plain
  have whole := flatMap_splitOn 10 bytes
  rw [split, List.flatMap_append, List.flatMap_singleton, ← List.append_assoc] at whole
  have parts := List.append_cancel_right whole
  have inner (line : List UInt8) (member : line ∈ lines ++ [last]) : ∀ byte ∈ line, byte.toNat < 128 := by
    intro byte inside
    have kept : byte ∈ (lines ++ [last]).flatMap fun part => part ++ [10] :=
      List.mem_flatMap.mpr ⟨line, member, List.mem_append_left _ inside⟩
    rw [← split, flatMap_splitOn] at kept
    rcases List.mem_append.mp kept with within | newline
    · exact ascii byte within
    · rw [List.mem_singleton.mp newline]
      decide
  obtain ⟨fewer, rfl⟩ := Nat.exists_eq_succ_of_ne_zero wanted.ne'
  have drifts (count : Nat) : ((passed count lines.reverse).map drift).sum = 0 := by
    refine List.sum_eq_zero fun moved member => ?_
    obtain ⟨line, inside, rfl⟩ := List.mem_map.mp member
    have old : line ∈ lines := List.mem_reverse.mp ((passed_isPrefix count lines.reverse).subset inside)
    exact drift_plain (inner line (List.mem_append_left _ old)) (unblank line old)
  unfold place
  rw [split, List.reverse_append, List.reverse_singleton, List.singleton_append, Nat.succ_eq_add_one, passed,
    List.map_cons,
    List.sum_cons, drifts]
  rcases ending with rfl | unblank_last
  · have ended : isEnded bytes = true := by
      rw [List.append_nil] at parts
      rcases List.eq_nil_or_concat lines with rfl | ⟨older, line, rfl⟩
      · exact absurd parts.symm stated
      · rw [isEnded, ← parts]
        simp
    have one : drift [] = 1 := rfl
    rw [ended, one, if_pos rfl]
    ring
  · have unended : isEnded bytes = false := by
      have filled : last ≠ [] := by
        rintro rfl
        cases unblank_last
      have member : last ∈ bytes.splitOn 10 := by
        rw [split]
        exact List.mem_append_right _ List.mem_cons_self
      rw [isEnded, ← parts, List.getLast?_append_of_ne_nil _ filled]
      exact decide_eq_false fun newline => notMem_of_mem_splitOn member (List.mem_of_getLast? newline)
    rw [unended, drift_plain (inner last (List.mem_append_right _ List.mem_cons_self)) unblank_last,
      if_neg Bool.false_ne_true]
    ring

theorem plain_take_start (plain : Plain bytes) (wanted : 0 < limit) : Plain (bytes.take (start bytes limit)) := by
  obtain ⟨ascii, lines, last, split, unblank, -⟩ := plain
  refine ⟨fun byte member => ascii byte (List.mem_of_mem_take member), ?_⟩
  obtain ⟨older, parts, unbroken, before⟩ := @take_start bytes limit wanted
  obtain ⟨fewer, rfl⟩ := Nat.exists_eq_succ_of_ne_zero wanted.ne'
  rw [split, List.reverse_append, List.reverse_singleton, List.singleton_append, Nat.succ_eq_add_one, passed,
    List.cons_append] at parts
  have old (line : List UInt8) (member : line ∈ older) : line ∈ lines := by
    have inside : line ∈ lines.reverse := by
      rw [(List.cons.inj parts).2]
      exact List.mem_append_right _ member
    exact List.mem_reverse.mp inside
  rw [before, splitOn_flatMap fun line member => unbroken line (List.mem_reverse.mp member)]
  exact ⟨older.reverse, [], rfl, fun line member => unblank line (old line (List.mem_reverse.mp member)), Or.inl rfl⟩

theorem remaining_plain (plain : Plain bytes) (wanted : 0 < limit) (count : Nat) :
    Plain ((reached python bytes limit chunkBytes filled count).remaining bytes) := by
  have empty : Plain [] := ⟨by simp, [], [], rfl, by simp, Or.inl rfl⟩
  induction count with
  | zero =>
    change Plain (bytes.take bytes.length)
    rwa [List.take_length]
  | succ count ih =>
    rw [reached_succ]
    cases now : reached python bytes limit chunkBytes filled count with
    | finished shown => exact empty
    | reading before shown =>
      obtain ⟨-, left⟩ := @follow_leaves python bytes limit chunkBytes filled before shown
      rw [now, remaining_reading] at ih
      rw [left]
      generalize bytes.take (before.getD bytes.length) = region at *
      split_ifs with full
      · have whole : Whole limit chunkBytes filled region := whole_of_readText (readText_ascii ih.ascii)
        have stated : region ≠ [] := by
          rintro rfl
          rw [shownLines_nil, List.length_nil] at full
          omega
        rw [nextPlace_eq_place wanted whole full, place_plain ih wanted stated, Int.toNat_natCast]
        exact plain_take_start ih wanted
      · exact empty

/-- Every line of a plain log is shown once. -/
theorem reached_right_of_plain (plain : Plain bytes) (wanted : 0 < limit) (count : Nat) :
    Right python bytes (reached python bytes limit chunkBytes filled count) := by
  refine (reached_right_iff wanted ?_).mpr ?_ count
  · exact fun count => whole_of_readText (readText_ascii (remaining_plain plain wanted count).ascii)
  · intro count enough
    rw [place_plain (remaining_plain plain wanted count) wanted ?_, Int.toNat_natCast]
    intro none_left
    rw [none_left, rows_nil, List.length_nil] at enough
    omega

end Plain

/-! ## Characters cut between two chunks -/

section Cuts

/-- How many bytes of a character are still to come at a place; the first argument counts those at the start. -/
def pending : Nat → Nat → List UInt8 → Nat
  | taken, 0, _ => taken
  | taken, _ + 1, [] => taken
  | taken + 1, count + 1, _ :: rest => pending taken count rest
  | 0, count + 1, byte :: rest => pending (utf8Next byte rest).2 count rest

variable {taken count : Nat} {bytes : List UInt8} {limit : Nat}

theorem le_of_pending (none_left : pending taken count bytes = 0) : taken ≤ count := by
  induction count generalizing taken bytes with
  | zero => exact Nat.le_of_eq none_left
  | succ count ih =>
    cases bytes with
    | nil =>
      have none_taken : taken = 0 := none_left
      omega
    | cons byte rest =>
      cases taken with
      | zero => exact Nat.zero_le _
      | succ taken => exact Nat.succ_le_succ (ih none_left)

/-- A character is read from no more than its own bytes. -/
theorem utf8Continue_take {code more low high : Nat}
    (within : ∀ read, utf8Continue code more low high bytes = .inl read → more ≤ count)
    (cut : ∀ taken, utf8Continue code more low high bytes = .inr taken → taken ≤ count) :
    utf8Continue code more low high (bytes.take count) = utf8Continue code more low high bytes := by
  induction bytes generalizing code more low high count with
  | nil => rw [List.take_nil]
  | cons byte rest ih =>
    cases more with
    | zero => cases count <;> rfl
    | succ more =>
      rw [utf8Continue] at within cut
      split_ifs at within cut with inside
      · cases count with
        | zero =>
          cases later : utf8Continue (code * 64 + (byte.toNat - 0x80)) more 0x80 0xBF rest with
          | inl read =>
            rw [later] at within
            exact absurd (within read rfl) (Nat.not_succ_le_zero _)
          | inr taken =>
            rw [later] at cut
            exact absurd (cut (taken + 1) rfl) (Nat.not_succ_le_zero _)
        | succ count =>
          rw [List.take_succ_cons, utf8Continue, utf8Continue, if_pos inside, if_pos inside, ih]
          · intro read later
            rw [later] at within
            exact Nat.succ_le_succ_iff.mp (within read rfl)
          · intro taken later
            rw [later] at cut
            exact Nat.succ_le_succ_iff.mp (cut (taken + 1) rfl)
      · cases count with
        | zero => rw [List.take_zero, utf8Continue, utf8Continue, if_neg inside]
        | succ count => rw [List.take_succ_cons, utf8Continue, utf8Continue, if_neg inside, if_neg inside]

theorem utf8Next_take {byte : UInt8} {rest : List UInt8} (within : (utf8Next byte rest).2 ≤ count) :
    utf8Next byte (rest.take count) = utf8Next byte rest := by
  unfold utf8Next at within ⊢
  cases lead : utf8Lead byte.toNat with
  | none => rfl
  | some read =>
    obtain ⟨bits, more, low, high⟩ := read
    rw [lead] at within
    dsimp only at within ⊢
    rw [utf8Continue_take]
    · intro code whole
      rwa [whole] at within
    · intro taken cut
      rwa [cut] at within

/-- Cutting where no character is cut cuts the text. -/
theorem decodeReplaceFrom_split (whole : pending taken count bytes = 0) :
    decodeReplaceFrom taken bytes =
      decodeReplaceFrom taken (bytes.take count) ++ decodeReplace (bytes.drop count) := by
  induction count generalizing taken bytes with
  | zero =>
    have none_taken : taken = 0 := whole
    rw [none_taken]
    rfl
  | succ count ih =>
    cases bytes with
    | nil => simp [decodeReplaceFrom, decodeReplace]
    | cons byte rest =>
      cases taken with
      | succ taken => exact ih whole
      | zero =>
        rw [List.take_succ_cons, List.drop_succ_cons, decodeReplaceFrom, decodeReplaceFrom,
          utf8Next_take (le_of_pending whole), ih whole]
        rfl

theorem pending_take {more : Nat} (whole : pending taken count bytes = 0) (within : count ≤ more) :
    pending taken count (bytes.take more) = 0 := by
  induction count generalizing taken bytes more with
  | zero => exact whole
  | succ count ih =>
    obtain ⟨more, rfl⟩ := Nat.exists_eq_succ_of_ne_zero (by omega : more ≠ 0)
    cases bytes with
    | nil => exact whole
    | cons byte rest =>
      cases taken with
      | succ taken => exact ih whole (Nat.succ_le_succ_iff.mp within)
      | zero =>
        have inside := Nat.succ_le_succ_iff.mp within
        have later : pending (utf8Next byte rest).2 count rest = 0 := whole
        rw [Nat.succ_eq_add_one, List.take_succ_cons, pending, utf8Next_take ((le_of_pending later).trans inside)]
        exact ih later inside

/-- Bytes that are none, or end a line. -/
def EndsLine (front : List UInt8) : Prop := front = [] ∨ ∃ line, front = line ++ [10]

/-- The text of bytes in which no chunk's end cuts a character, behind lines read in chunks of their own. -/
theorem readText_behind (chunkBytes : Nat) (filled : 0 < chunkBytes) {front back : List UInt8} (ends : EndsLine front)
    (uncut : ∀ count < back.length, (back.length - count) % chunkBytes = 0 → pending 0 count back = 0) :
    ∃ before, readText chunkBytes filled (front ++ back) = before ++ decodeReplace back ∧
      (front = [] ∧ before = [] ∨ front ≠ [] ∧ ∃ text, before = text ++ ['\n']) := by
  have general (count : Nat) : count ≤ back.length → (back.length - count) % chunkBytes = 0 →
      ∃ before, readText chunkBytes filled (front ++ back.take count) = before ++ decodeReplace (back.take count) ∧
        (front = [] ∧ before = [] ∨ front ≠ [] ∧ ∃ text, before = text ++ ['\n']) := by
    induction count using Nat.strong_induction_on with
    | _ count ih =>
      intro inside place
      have size : (front ++ back.take count).length = front.length + count := by
        rw [List.length_append, List.length_take_of_le inside]
      rw [readText, size]
      by_cases beyond : count < chunkBytes
      · rcases ends with rfl | ⟨line, rfl⟩
        · -- The first chunk holds them all.
          have start : ([] : List UInt8).length + count - chunkBytes = 0 := by
            rw [List.length_nil]
            omega
          rw [start, List.take_zero, List.drop_zero, List.nil_append, readText, if_pos rfl]
          refine ⟨[], ?_, .inl ⟨rfl, rfl⟩⟩
          split_ifs with empty
          · rw [empty]
            rfl
          · rfl
        · -- The chunk begins in the bytes before the line feed.
          have short : (line ++ [10]).length + count - chunkBytes ≤ line.length := by
            rw [List.length_append, List.length_singleton]
            omega
          have last : (line ++ [10] ++ back.take count).drop ((line ++ [10]).length + count - chunkBytes) =
              line.drop ((line ++ [10]).length + count - chunkBytes) ++ 10 :: back.take count := by
            rw [List.append_assoc, List.drop_append_of_le_length short, List.singleton_append]
          rw [if_neg (by simp), last, decodeReplace_append]
          generalize readText chunkBytes filled _ = first
          generalize decodeReplace (line.drop _) = second
          exact ⟨first ++ second ++ ['\n'], by simp, .inr ⟨by simp, first ++ second, rfl⟩⟩
      · have earlier : (back.length - (count - chunkBytes)) % chunkBytes = 0 := by
          have same : back.length - (count - chunkBytes) = back.length - count + chunkBytes := by omega
          rw [same, Nat.add_mod_right, place]
        have begins : front.length + count - chunkBytes = front.length + (count - chunkBytes) := by omega
        obtain ⟨before, read, ended⟩ := ih (count - chunkBytes) (by omega) (by omega) earlier
        have stated : front ++ back.take count ≠ [] := by
          refine List.ne_nil_of_length_pos ?_
          rw [size]
          omega
        have whole : pending 0 (count - chunkBytes) (back.take count) = 0 :=
          pending_take (uncut _ (by omega) earlier) (Nat.sub_le _ _)
        have joined := decodeReplaceFrom_split whole
        rw [List.take_take, min_eq_left (Nat.sub_le _ _)] at joined
        refine ⟨before, ?_, ended⟩
        rw [if_neg stated, begins, List.take_length_add_append, List.drop_length_add_append, List.take_take,
          min_eq_left (Nat.sub_le _ _), read, List.append_assoc]
        exact congrArg _ joined.symm
  have all := general back.length (le_refl _) (by simp)
  rwa [List.take_length] at all

/-- No character of the lines a page passes, the blank ones among them, is cut at the end of a chunk. -/
def Uncut (limit chunkBytes : Nat) (region : List UInt8) : Prop :=
  let passed := region.drop (start region limit)
  ∀ count < passed.length, (passed.length - count) % chunkBytes = 0 → pending 0 count passed = 0

theorem splitOn_drop_start (wanted : 0 < limit) :
    EndsLine (bytes.take (start bytes limit)) ∧
      (bytes.take (start bytes limit) ≠ [] → passed limit (bytes.splitOn 10).reverse ≠ (bytes.splitOn 10).reverse) ∧
      (bytes.drop (start bytes limit)).splitOn 10 = (passed limit (bytes.splitOn 10).reverse).reverse := by
  obtain ⟨older, split, -, before⟩ := @take_start bytes limit wanted
  have parts : bytes.splitOn 10 = older.reverse ++ (passed limit (bytes.splitOn 10).reverse).reverse := by
    rw [← List.reverse_append, ← split, List.reverse_reverse]
  have whole := flatMap_splitOn 10 bytes
  rw [parts, List.flatMap_append, ← before] at whole
  have behind : ((passed limit (bytes.splitOn 10).reverse).reverse.flatMap fun line => line ++ [10]) =
      bytes.drop (start bytes limit) ++ [10] := by
    rw [← List.append_cancel_left_eq (bytes.take (start bytes limit)), whole, ← List.append_assoc,
      List.take_append_drop]
  have unbroken : ∀ line ∈ (passed limit (bytes.splitOn 10).reverse).reverse, (10 : UInt8) ∉ line := by
    intro line member
    have inside : line ∈ bytes.splitOn 10 := by
      rw [parts]
      exact List.mem_append_right _ member
    exact notMem_of_mem_splitOn inside
  have again := splitOn_flatMap unbroken
  rw [behind, List.splitOn_append_cons_self, List.splitOn_nil] at again
  refine ⟨?_, ?_, List.append_cancel_right again⟩
  · rw [before]
    rcases List.eq_nil_or_concat older.reverse with none_older | ⟨lines, line, last⟩
    · rw [none_older]
      exact .inl rfl
    · rw [last, List.concat_eq_append, List.flatMap_append, List.flatMap_singleton, ← List.append_assoc]
      exact .inr ⟨_, rfl⟩
  · intro stated all
    rw [all] at split
    rw [before, List.self_eq_append_right.mp split] at stated
    exact stated rfl

theorem le_length_stated {lines : List (List UInt8)} (more : passed limit lines ≠ lines) :
    limit ≤ (stated lines).length := by
  induction lines generalizing limit with
  | nil => exact absurd (by cases limit <;> rfl) more
  | cons line lines ih =>
    cases limit with
    | zero => exact Nat.zero_le _
    | succ limit =>
      rw [passed, ne_eq, List.cons.injEq, eq_self, true_and] at more
      unfold stated at ih ⊢
      cases blank : isBlank (decodeReplace line) with
      | true =>
        rw [blank, if_pos rfl] at more
        simpa [blank] using Nat.succ_le_iff.mp (ih more)
      | false =>
        rw [blank, if_neg Bool.false_ne_true] at more
        simpa [blank] using ih more

/-- Where no character is cut, the page's lines are read whole. -/
theorem whole_of_uncut {chunkBytes : Nat} {filled : 0 < chunkBytes} {region : List UInt8} (wanted : 0 < limit)
    (uncut : Uncut limit chunkBytes region) : Whole limit chunkBytes filled region := by
  obtain ⟨ends, older, behind⟩ := @splitOn_drop_start region limit wanted
  obtain ⟨before, read, ended⟩ := readText_behind chunkBytes filled ends uncut
  rw [List.take_append_drop] at read
  rcases ended with ⟨none_before, rfl⟩ | ⟨some_before, text, rfl⟩
  · refine whole_of_readText ?_
    have all := List.take_append_drop (start region limit) region
    rw [none_before, List.nil_append] at all
    rw [read, List.nil_append, all]
  · have shown : newest (linesOf (region.drop (start region limit))) =
        (stated (region.splitOn 10).reverse).take limit := by
      rw [newest_linesOf, behind, List.reverse_reverse, stated_passed]
    have enough := le_length_stated (older some_before)
    rw [Whole, shownLines, readLines, read, List.append_assoc, List.singleton_append, List.splitOn_append_cons_self,
      splitOn_decodeReplace, newest_append, shown, newest_linesOf, List.take_append_of_le_length, List.take_take,
      min_self]
    rw [List.length_take, min_eq_left enough]

end Cuts

/-- Paging ends. Where every page is of whole lines, the lines shown are those of the log, each once, exactly if every
page's place is counted right; a page is of whole lines where no chunk's end cuts a character of the lines it passes, so
within one chunk; and a log of ASCII characters without blank lines is shown right. -/
theorem pages_right_iff (python : Python) (bytes : List UInt8) {limit chunkBytes : Nat} (wanted : 0 < limit)
    (filled : 0 < chunkBytes) :
    (∃ count shown, reached python bytes limit chunkBytes filled count = .finished shown) ∧
      ((∀ count, Whole limit chunkBytes filled ((reached python bytes limit chunkBytes filled count).remaining bytes)) →
        ((∀ count, Right python bytes (reached python bytes limit chunkBytes filled count)) ↔
          ∀ count, Counted python limit ((reached python bytes limit chunkBytes filled count).remaining bytes))) ∧
      (∀ region : List UInt8, Uncut limit chunkBytes region → Whole limit chunkBytes filled region) ∧
      (∀ region : List UInt8, region.length ≤ chunkBytes → Whole limit chunkBytes filled region) ∧
      (Plain bytes → ∀ count, Right python bytes (reached python bytes limit chunkBytes filled count)) := by
  refine ⟨⟨_, reached_finished wanted⟩, reached_right_iff wanted, fun region => whole_of_uncut wanted,
    fun region => whole_of_length_le, ?_⟩
  exact fun plain => reached_right_of_plain plain wanted

theorem plain_two_lines : Plain [97, 10, 98] where
  ascii := by decide +kernel
  unblank := ⟨[[97]], [98], rfl, by decide +kernel, Or.inr rfl⟩

/-- The second of two lines, shown alone. -/
theorem one_line_page_right : Right ⟨Char.isDigit, List.map Char.toUpper⟩ [97, 10, 98]
    (reached ⟨Char.isDigit, List.map Char.toUpper⟩ [97, 10, 98] 1 2 Nat.two_pos 1) :=
  (pages_right_iff ⟨Char.isDigit, List.map Char.toUpper⟩ [97, 10, 98] Nat.one_pos Nat.two_pos).2.2.2.2 plain_two_lines 1

/-- The line before a blank one is shown again on the next page. -/
theorem line_shown_twice :
    reached ⟨Char.isDigit, List.map Char.toUpper⟩ [97, 10, 10] 1 3 (Nat.succ_pos 2) 2 =
        .finished [⟨['a'], [], [], [], [], [], ['a']⟩, ⟨['a'], [], [], [], [], [], ['a']⟩] ∧
      rows ⟨Char.isDigit, List.map Char.toUpper⟩ [97, 10, 10] = [⟨['a'], [], [], [], [], [], ['a']⟩] := by
  have whole (region : List UInt8) (within : region.length ≤ 3) :
      shownLines region 1 3 (Nat.succ_pos 2) = (newest (linesOf region)).take 1 := whole_of_length_le within
  have first : follow ⟨Char.isDigit, List.map Char.toUpper⟩ [97, 10, 10] 1 3 (Nat.succ_pos 2) (.reading none []) =
      .reading (some 1) [⟨['a'], [], [], [], [], [], ['a']⟩] := by
    rw [follow_reading]
    unfold nextPlace
    dsimp only
    rw [whole _ (by decide)]
    rfl
  have second : follow ⟨Char.isDigit, List.map Char.toUpper⟩ [97, 10, 10] 1 3 (Nat.succ_pos 2)
      (.reading (some 1) [⟨['a'], [], [], [], [], [], ['a']⟩]) =
        .finished [⟨['a'], [], [], [], [], [], ['a']⟩, ⟨['a'], [], [], [], [], [], ['a']⟩] := by
    rw [follow_reading]
    unfold nextPlace
    dsimp only
    rw [whole _ (by decide)]
    rfl
  refine ⟨?_, rfl⟩
  rw [reached_succ, reached_succ]
  exact (congrArg _ first).trans second

end DbaBrain.Lib.LogTail
