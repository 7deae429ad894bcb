import DbaBrain.Foundation.Lines
import DbaBrain.Foundation.Text

/-!
# Fitting a text into Telegram's messages

A body that is too long goes out in parts, broken at its lines; a caption that
is too long is cut, and the whole text follows the document.
-/

namespace DbaBrain.Telegram.MessageParts

open DbaBrain.Foundation DbaBrain.Foundation.Text Lines

def telegramSafeTextLength : Nat := 3900

def telegramCaptionLimit : Nat := 1024

def captionContinued : String := "\n[full text in the next message]"

def partMarkerRoom : Nat := 80

/-! ## Chunks -/

/-- The chunks that are done, and the lines of the one being filled. -/
structure Chunking where
  chunks : List (List Char)
  lines : List (List Char)
  length : Nat

def Chunking.flush (chunking : Chunking) : Chunking :=
  if chunking.lines = [] then chunking else ⟨chunking.chunks ++ [['\n'].intercalate chunking.lines], [], 0⟩

/-- A line without a boundary to offer, in pieces. -/
def hardSplit (maxLength : Nat) (line : List Char) : List (List Char) :=
  (List.range ((line.length + maxLength - 1) / maxLength)).map fun piece => (line.drop (piece * maxLength)).take maxLength

def Chunking.addLine (maxLength : Nat) (chunking : Chunking) (line : List Char) : Chunking :=
  let lineLength := line.length + if chunking.lines = [] then 0 else 1
  let fitting := if chunking.lines ≠ [] ∧ maxLength < chunking.length + lineLength then chunking.flush else chunking
  if maxLength < line.length then { fitting.flush with chunks := fitting.flush.chunks ++ hardSplit maxLength line }
  else ⟨fitting.chunks, fitting.lines ++ [line], fitting.length + line.length + if fitting.length = 0 then 0 else 1⟩

def splitTextByLines (maxLength : Nat) (text : List Char) : List (List Char) :=
  let chunks := ((splitLines text).foldl (Chunking.addLine maxLength) ⟨[], [], 0⟩).flush.chunks
  if chunks = [] then [[]] else chunks

theorem splitTextByLines_ne_nil (maxLength : Nat) (text : List Char) : splitTextByLines maxLength text ≠ [] := by
  unfold splitTextByLines
  dsimp only
  split
  · exact List.cons_ne_nil _ _
  · assumption

/-- A line that has no room is cut into pieces. -/
theorem splitTextByLines_of_unbroken {maxLength : Nat} {text : List Char}
    (unbroken : ∀ c ∈ text, isBreak c = false) (long : maxLength < text.length) :
    splitTextByLines maxLength text = if hardSplit maxLength text = [] then [[]] else hardSplit maxLength text := by
  have filled : text ≠ [] := by
    rintro rfl
    simp at long
  have one : splitLines text = [text] := by
    have read := splitLinesFrom_append unbroken [] []
    rwa [List.append_nil, List.nil_append, splitLinesFrom.eq_1, if_neg filled] at read
  unfold splitTextByLines
  rw [one]
  simp [Chunking.addLine, Chunking.flush, long]

/-! ## Messages and captions -/

def splitTelegramMessage (text : String) : List String :=
  let cleanText := strip text
  if cleanText.length ≤ telegramSafeTextLength then [cleanText]
  else
    let rawChunks := splitTextByLines (telegramSafeTextLength - partMarkerRoom) cleanText.toList
    rawChunks.mapIdx fun index chunk =>
      "[part " ++ toString (index + 1) ++ "/" ++ toString rawChunks.length ++ "]\n" ++ String.ofList chunk

theorem splitTelegramMessage_ne_nil (text : String) : splitTelegramMessage text ≠ [] := by
  unfold splitTelegramMessage
  dsimp only
  split
  · exact List.cons_ne_nil _ _
  · intro empty
    have none := congrArg List.length empty
    rw [List.length_mapIdx, List.length_nil] at none
    exact splitTextByLines_ne_nil _ _ (List.eq_nil_of_length_eq_zero none)

/-- A text of one line that is too long goes out in as many parts as its pieces. -/
theorem length_splitTelegramMessage {text : String} (unbroken : ∀ c ∈ text.toList, isBreak c = false)
    (stripped : strip text = text) (long : telegramSafeTextLength < text.length) :
    (splitTelegramMessage text).length =
      (text.length + (telegramSafeTextLength - partMarkerRoom) - 1) / (telegramSafeTextLength - partMarkerRoom) := by
  have room : telegramSafeTextLength - partMarkerRoom < text.toList.length := by
    rw [String.length_toList]
    exact lt_of_le_of_lt (Nat.sub_le _ _) long
  have pieces : hardSplit (telegramSafeTextLength - partMarkerRoom) text.toList ≠ [] := by
    unfold hardSplit telegramSafeTextLength partMarkerRoom at *
    simp only [ne_eq, List.map_eq_nil_iff, List.range_eq_nil]
    omega
  unfold splitTelegramMessage
  dsimp only
  rw [stripped, if_neg (Nat.not_le.mpr long), List.length_mapIdx, splitTextByLines_of_unbroken unbroken room, if_neg pieces]
  rw [hardSplit, List.length_map, List.length_range, String.length_toList]

/-- `head.rstrip()`. -/
def rstrip (chars : List Char) : List Char := (chars.reverse.dropWhile isSpace).reverse

/-- The caption's text: the room it has, cut at a line that is in the second half. -/
def captionHead (text : List Char) : List Char :=
  let room := telegramCaptionLimit - captionContinued.length
  let head := text.take room
  if '\n' ∈ head then
    let cut := head.length - 1 - head.reverse.idxOf '\n'
    if room / 2 < cut then head.take cut else head
  else head

def documentCaption (text : String) : String × String :=
  if text.length ≤ telegramCaptionLimit then (text, "")
  else (String.ofList (rstrip (captionHead text.toList)) ++ captionContinued, text)

end DbaBrain.Telegram.MessageParts
