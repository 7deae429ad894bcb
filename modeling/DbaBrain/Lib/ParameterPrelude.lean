import DbaBrain.Foundation.Execution
import DbaBrain.Foundation.PyValues

/-!
# The declarations in front of a script

A task's parameters are declared in front of its T-SQL, one line each, and every
value is bound to the placeholder at the end of its line.  The name and the type of
a declaration reach the text, and both are checked; the value that is supplied
decides only what is bound, and whether the call is refused.
-/

namespace DbaBrain.Lib.ParameterPrelude

open DbaBrain.Foundation
open DbaBrain.Foundation.PyValues

/-! ## The checks -/

def sqlParameterTypes : List String :=
  ["bigint", "bit", "char", "date", "datetime", "datetime2", "decimal", "float", "int", "money", "nchar", "numeric",
    "nvarchar", "real", "smalldatetime", "smallint", "time", "tinyint", "uniqueidentifier", "varchar"]

def isLetter (c : Char) : Bool := ('A' ≤ c && c ≤ 'Z') || ('a' ≤ c && c ≤ 'z') || c = '_'

def isNameChar (c : Char) : Bool := isLetter c || ('0' ≤ c && c ≤ '9')

/-- `_SQL_IDENTIFIER_RE`. -/
def isIdentifier : List Char → Bool
  | [] => false
  | first :: rest => isLetter first && rest.all isNameChar && rest.length ≤ 63

/-- A letter, a digit or `_` without regard to case: four letters beyond ASCII are cases of `i`, `s` and `k`. -/
def isTypeChar (c : Char) : Bool := isNameChar c || c.toNat ∈ [304, 305, 383, 8490]

section Types

/-! `isDecimal` is what `\d` matches. -/

variable (isDecimal : Char → Bool)

/-- The rest of a size: a scale or none, and the closing parenthesis. -/
def isSizeEnd (text : List Char) : Bool :=
  match text.dropWhile Text.isSpace with
  | ',' :: second =>
      let scale := second.dropWhile Text.isSpace
      scale.head?.any isDecimal && (scale.dropWhile isDecimal).dropWhile Text.isSpace = [')']
  | other => other = [')']

/-- What stands behind a type's opening parenthesis. -/
def isSize (text : List Char) : Bool :=
  let size := text.dropWhile Text.isSpace
  if size.head?.any isDecimal then isSizeEnd isDecimal (size.dropWhile isDecimal)
  else (size.take 3).map Char.toLower = ['m', 'a', 'x'] && isSizeEnd isDecimal (size.drop 3)

/-- `_SQL_TYPE_RE`. -/
def isTypeText (text : List Char) : Bool :=
  text.head?.any isTypeChar &&
    match text.dropWhile isTypeChar with
    | [] => true
    | '(' :: size => isSize isDecimal size
    | _ => false

end Types

/-! ## The prelude -/

section Prelude

variable (python : Python) (isDecimal : Char → Bool)

/-- `str(value or fallback)`. -/
def textOr (value : Json) (fallback : String) : String := if truthy value then python.str value else fallback

def nameOf (parameter : Record) : String := Text.strip (textOr python (get parameter "name") "")

def declaredType (parameter : Record) : String := Text.strip (textOr python (get parameter "type") "nvarchar(4000)")

/-- `declared_type.split("(", 1)[0].strip().lower()`. -/
def baseType (declared : String) : String :=
  python.lower (Text.strip (String.ofList (declared.toList.takeWhile fun c => c ≠ '(')))

def invalidName (name : String) : String :=
  "Invalid parameter name " ++ python.repr (.string name) ++ ": letters, digits and underscore only."

def typeNotAllowed (name declared : String) : String :=
  "Parameter " ++ python.repr (.string name) ++ " declares type " ++ python.repr (.string declared) ++ "; allowed: " ++
    python.repr (.array (sqlParameterTypes.map .string)) ++ "."

def malformedType (name declared : String) : String :=
  "Parameter " ++ python.repr (.string name) ++ " has a malformed type: " ++ python.repr (.string declared) ++ "."

def missingParameter (name : String) : String := "Missing required parameter: " ++ name ++ "."

def checkDeclaration (parameter : Record) : Except String Unit :=
  if isIdentifier (nameOf python parameter).toList = false then .error (invalidName python (nameOf python parameter))
  else if baseType python (declaredType python parameter) ∉ sqlParameterTypes then
    .error (typeNotAllowed python (nameOf python parameter) (declaredType python parameter))
  else if isTypeText isDecimal (declaredType python parameter).toList = false then
    .error (malformedType python (nameOf python parameter) (declaredType python parameter))
  else .ok ()

/-- The map holds a value under the name that is not blank. -/
def supplied (values : Record) (name : String) : Bool :=
  has values name && Text.strip (python.str (get values name)) ≠ ""

def checkedValue (parameter values : Record) : Except String Json :=
  if supplied python values (nameOf python parameter) then .ok (get values (nameOf python parameter))
  else if has parameter "default" then .ok (get parameter "default")
  else if truthy (get parameter "required") then .error (missingParameter (nameOf python parameter))
  else .ok .null

def declareLine (parameter : Record) : String :=
  "DECLARE @" ++ nameOf python parameter ++ " " ++ declaredType python parameter ++ " = ?;"

/-- The loop's two lists. -/
def preludeParts (values : Record) : List Record → Except String (List String × List Json)
  | [] => .ok ([], [])
  | parameter :: rest => do
      checkDeclaration python isDecimal parameter
      let value ← checkedValue python parameter values
      let later ← preludeParts values rest
      return (declareLine python parameter :: later.1, value :: later.2)

def joinLines (lines : List String) : String := if lines = [] then "" else String.intercalate "\n" lines ++ "\n"

def buildParameterPrelude (parameters : List Record) (values : Record) : Except String (String × List Json) := do
  let parts ← preludeParts python isDecimal values parameters
  return (joinLines parts.1, parts.2)

/-! ## What a value decides -/

/-- The declaration passes its checks. -/
def Declared (parameter : Record) : Prop :=
  isIdentifier (nameOf python parameter).toList = true ∧
    baseType python (declaredType python parameter) ∈ sqlParameterTypes ∧
    isTypeText isDecimal (declaredType python parameter).toList = true

/-- The parameter is required, has no default, and the map holds no value for it or a blank one. -/
def Lacks (values parameter : Record) : Prop :=
  supplied python values (nameOf python parameter) = false ∧ has parameter "default" = false ∧
    truthy (get parameter "required") = true

/-- What is bound to a parameter that is not lacking. -/
def valueFor (values parameter : Record) : Json :=
  if supplied python values (nameOf python parameter) then get values (nameOf python parameter)
  else if has parameter "default" then get parameter "default"
  else .null

variable {python isDecimal}
variable {parameter values : Record}

theorem checkDeclaration_eq_ok :
    checkDeclaration python isDecimal parameter = .ok () ↔ Declared python isDecimal parameter := by
  unfold checkDeclaration Declared
  by_cases named : isIdentifier (nameOf python parameter).toList = true
  · by_cases allowed : baseType python (declaredType python parameter) ∈ sqlParameterTypes
    · by_cases formed : isTypeText isDecimal (declaredType python parameter).toList = true
      · simp [named, allowed, formed]
      · simp [named, allowed, formed]
    · simp [named, allowed]
  · simp [named]

theorem checkedValue_eq_ok {value : Json} :
    checkedValue python parameter values = .ok value ↔
      ¬ Lacks python values parameter ∧ valueFor python values parameter = value := by
  unfold checkedValue Lacks valueFor
  by_cases given : supplied python values (nameOf python parameter) = true
  · simp [given]
  · by_cases fallback : has parameter "default" = true
    · simp [given, fallback]
    · by_cases required : truthy (get parameter "required") = true
      · simp [given, fallback, required]
      · simp [given, fallback, required]

theorem preludeParts_eq_ok {parameters : List Record} {parts : List String × List Json} :
    preludeParts python isDecimal values parameters = .ok parts ↔
      (∀ parameter ∈ parameters, Declared python isDecimal parameter) ∧
      (∀ parameter ∈ parameters, ¬ Lacks python values parameter) ∧
      parts = (parameters.map (declareLine python), parameters.map (valueFor python values)) := by
  induction parameters generalizing parts with
  | nil => simp [preludeParts, eq_comm]
  | cons parameter rest ih =>
    rw [preludeParts, List.forall_mem_cons, List.forall_mem_cons]
    constructor
    · intro ran
      obtain ⟨_, checked, ran⟩ := Execution.bind_eq_ok ran
      obtain ⟨value, found, ran⟩ := Execution.bind_eq_ok ran
      obtain ⟨later, others, done⟩ := Execution.bind_eq_ok ran
      obtain ⟨declared, lacking, rfl⟩ := ih.mp others
      obtain ⟨here, rfl⟩ := checkedValue_eq_ok.mp found
      exact ⟨⟨checkDeclaration_eq_ok.mp checked, declared⟩, ⟨here, lacking⟩, (Except.ok.inj done).symm⟩
    · rintro ⟨⟨checked, declared⟩, ⟨here, lacking⟩, rfl⟩
      rw [checkDeclaration_eq_ok.mpr checked, checkedValue_eq_ok.mpr ⟨here, rfl⟩, ih.mpr ⟨declared, lacking, rfl⟩]
      rfl

theorem buildParameterPrelude_eq_ok {parameters : List Record} {outcome : String × List Json} :
    buildParameterPrelude python isDecimal parameters values = .ok outcome ↔
      (∀ parameter ∈ parameters, Declared python isDecimal parameter) ∧
      (∀ parameter ∈ parameters, ¬ Lacks python values parameter) ∧
      outcome = (joinLines (parameters.map (declareLine python)), parameters.map (valueFor python values)) := by
  constructor
  · intro ran
    obtain ⟨parts, found, done⟩ := Execution.bind_eq_ok ran
    obtain ⟨declared, lacking, rfl⟩ := preludeParts_eq_ok.mp found
    exact ⟨declared, lacking, (Except.ok.inj done).symm⟩
  · rintro ⟨declared, lacking, rfl⟩
    rw [buildParameterPrelude, preludeParts_eq_ok.mpr ⟨declared, lacking, rfl⟩]
    rfl

/-! ## One placeholder a line -/

/-- A character that is not among those passed over is found behind them. -/
theorem notMem_of_dropWhile {passed : Char → Bool} {text : List Char} {c : Char} (other : passed c = false)
    (absent : c ∉ text.dropWhile passed) : c ∉ text := by
  intro member
  rw [← List.takeWhile_append_dropWhile (p := passed) (l := text), List.mem_append] at member
  rcases member with front | back
  · have held := List.mem_takeWhile_imp front
    rw [other] at held
    cases held
  · exact absent back

theorem notMem_of_isSizeEnd (unlike : isDecimal '?' = false) {text : List Char}
    (ends : isSizeEnd isDecimal text = true) : '?' ∉ text := by
  refine @notMem_of_dropWhile Text.isSpace _ _ (by decide) ?_
  unfold isSizeEnd at ends
  split at ends
  · next second scaled =>
      simp only [Bool.and_eq_true, decide_eq_true_eq] at ends
      rw [scaled, List.mem_cons, not_or]
      refine ⟨by decide, @notMem_of_dropWhile Text.isSpace _ _ (by decide) ?_⟩
      refine notMem_of_dropWhile unlike (@notMem_of_dropWhile Text.isSpace _ _ (by decide) ?_)
      rw [ends.2]
      decide
  · rw [of_decide_eq_true ends]
    decide

theorem notMem_of_isSize (unlike : isDecimal '?' = false) {text : List Char} (sized : isSize isDecimal text = true) :
    '?' ∉ text := by
  refine @notMem_of_dropWhile Text.isSpace _ _ (by decide) ?_
  unfold isSize at sized
  simp only at sized
  split at sized
  · exact notMem_of_dropWhile unlike (notMem_of_isSizeEnd unlike sized)
  · simp only [Bool.and_eq_true, decide_eq_true_eq] at sized
    intro member
    rw [← List.take_append_drop 3 (text.dropWhile Text.isSpace), List.mem_append] at member
    rcases member with inside | behind
    · have lowered := List.mem_map_of_mem (f := Char.toLower) inside
      rw [sized.1] at lowered
      exact absurd lowered (by decide)
    · exact notMem_of_isSizeEnd unlike sized.2 behind

theorem notMem_of_isTypeText (unlike : isDecimal '?' = false) {text : List Char}
    (formed : isTypeText isDecimal text = true) : '?' ∉ text := by
  refine @notMem_of_dropWhile isTypeChar _ _ (by decide) ?_
  unfold isTypeText at formed
  rw [Bool.and_eq_true] at formed
  obtain ⟨-, rest⟩ := formed
  split at rest
  · next nothing => rw [nothing]; exact List.not_mem_nil
  · next size opened =>
      rw [opened, List.mem_cons, not_or]
      exact ⟨by decide, notMem_of_isSize unlike rest⟩
  · cases rest

theorem notMem_of_isIdentifier {text : List Char} (named : isIdentifier text = true) : '?' ∉ text := by
  cases text with
  | nil => exact List.not_mem_nil
  | cons first rest =>
    simp only [isIdentifier, Bool.and_eq_true, List.all_eq_true] at named
    intro member
    rcases List.mem_cons.mp member with rfl | inside
    · exact absurd named.1.1 (by decide)
    · exact absurd (named.1.2 _ inside) (by decide)

theorem count_declareLine (unlike : isDecimal '?' = false) (declared : Declared python isDecimal parameter) :
    (declareLine python parameter).toList.count '?' = 1 := by
  unfold declareLine
  simp only [String.toList_append, List.count_append, List.count_eq_zero.mpr (notMem_of_isIdentifier declared.1),
    List.count_eq_zero.mpr (notMem_of_isTypeText unlike declared.2.2)]
  rw [String.toList_ofList, String.toList_ofList, String.toList_ofList]
  decide

/-- Lines with one placeholder each have as many as there are lines. -/
theorem count_joinLines {lines : List String} (each : ∀ line ∈ lines, line.toList.count '?' = 1) :
    (joinLines lines).toList.count '?' = lines.length := by
  induction lines with
  | nil => rfl
  | cons line rest ih =>
    have later := ih fun other member => each other (List.mem_cons_of_mem line member)
    rw [joinLines, if_neg (List.cons_ne_nil _ _), String.toList_append, List.count_append]
    cases rest with
    | nil => simp [each line List.mem_cons_self]
    | cons second others =>
      rw [joinLines, if_neg (List.cons_ne_nil _ _), String.toList_append, List.count_append] at later
      rw [String.intercalate_cons_cons]
      simp only [String.toList_append, List.count_append, each line List.mem_cons_self] at later ⊢
      rw [Nat.add_assoc, later]
      simp
      omega

/-- What is supplied decides what is bound and whether the call is refused, never the text: where two maps
are not refused the text is the same.  It is the declarations' alone, one line each with one placeholder,
and the values stand in the order of the lines.  A map is refused for a declaration that fails its
checks, or for a required parameter without a default that it holds no value for or a blank one. -/
theorem prelude_of_declarations (unlike : isDecimal '?' = false) (parameters : List Record) :
    (∀ first second one two, buildParameterPrelude python isDecimal parameters first = .ok one →
      buildParameterPrelude python isDecimal parameters second = .ok two → one.1 = two.1) ∧
    (∀ values outcome, buildParameterPrelude python isDecimal parameters values = .ok outcome →
      outcome.1.toList.count '?' = outcome.2.length ∧
      outcome = (joinLines (parameters.map (declareLine python)), parameters.map (valueFor python values)) ∧
      ∀ parameter ∈ parameters, (declareLine python parameter).toList.count '?' = 1) ∧
    ∀ values, (∃ outcome, buildParameterPrelude python isDecimal parameters values = .ok outcome) ↔
      ∀ parameter ∈ parameters, Declared python isDecimal parameter ∧ ¬ Lacks python values parameter := by
  refine ⟨fun first second one two ran again => ?_, fun values outcome ran => ?_, fun values => ?_⟩
  · obtain ⟨-, -, rfl⟩ := buildParameterPrelude_eq_ok.mp ran
    obtain ⟨-, -, rfl⟩ := buildParameterPrelude_eq_ok.mp again
    rfl
  · obtain ⟨declared, -, rfl⟩ := buildParameterPrelude_eq_ok.mp ran
    have each : ∀ parameter ∈ parameters, (declareLine python parameter).toList.count '?' = 1 :=
      fun parameter member => count_declareLine unlike (declared parameter member)
    refine ⟨?_, rfl, each⟩
    rw [List.length_map, count_joinLines, List.length_map]
    intro line member
    obtain ⟨parameter, inside, rfl⟩ := List.mem_map.mp member
    exact each parameter inside
  · constructor
    · rintro ⟨outcome, ran⟩ parameter member
      obtain ⟨declared, lacking, -⟩ := buildParameterPrelude_eq_ok.mp ran
      exact ⟨declared parameter member, lacking parameter member⟩
    · intro each
      exact ⟨_, buildParameterPrelude_eq_ok.mpr ⟨fun parameter member => (each parameter member).1,
        fun parameter member => (each parameter member).2, rfl⟩⟩

end Prelude

/-- A required parameter of the default type. -/
def requiredJob : Record := [("name", .string "job"), ("required", .bool true)]

theorem declared_requiredJob : Declared asciiPython Char.isDigit requiredJob :=
  ⟨by decide +kernel, by decide +kernel, by decide +kernel⟩

theorem lacks_requiredJob_iff (text : String) :
    Lacks asciiPython [("job", .string text)] requiredJob ↔ Text.strip text = "" := by
  have name : nameOf asciiPython requiredJob = "job" := by decide +kernel
  have here : supplied asciiPython [("job", .string text)] "job" = decide (Text.strip text ≠ "") := rfl
  rw [Lacks, name, here]
  constructor
  · rintro ⟨blank, -, -⟩
    simpa using blank
  · intro blank
    exact ⟨by simpa using blank, rfl, rfl⟩

/-- A parameter with a size and a default. -/
def sizedNote : Record := [("name", .string "note"), ("type", .string "nvarchar(20)"), ("default", .string "none?")]

theorem declared_jobNote : ∀ parameter ∈ [requiredJob, sizedNote], Declared asciiPython Char.isDigit parameter := by
  intro parameter member
  rcases List.mem_cons.mp member with rfl | rest
  · exact declared_requiredJob
  · rw [List.mem_singleton.mp rest]
    exact ⟨by decide +kernel, by decide +kernel, by decide +kernel⟩

/-- A value with a quote and a statement, and values with placeholders, bound under the same text. -/
theorem prelude_of_two_maps : ∃ first second,
    buildParameterPrelude asciiPython Char.isDigit [requiredJob, sizedNote] [("job", .string "1'; DROP TABLE t --")] =
      .ok first ∧
    buildParameterPrelude asciiPython Char.isDigit [requiredJob, sizedNote]
      [("note", .string "?"), ("job", .string "@note")] = .ok second ∧
    first.1 = second.1 ∧ first.1.toList.count '?' = 2 ∧
      first.2 = [.string "1'; DROP TABLE t --", .string "none?"] ∧ second.2 = [.string "@note", .string "?"] := by
  have prelude := @prelude_of_declarations asciiPython Char.isDigit (by decide) [requiredJob, sizedNote]
  obtain ⟨first, ran⟩ := (prelude.2.2 [("job", .string "1'; DROP TABLE t --")]).mpr fun parameter member =>
    ⟨declared_jobNote parameter member, by revert parameter; unfold Lacks; decide +kernel⟩
  obtain ⟨second, again⟩ := (prelude.2.2 [("note", .string "?"), ("job", .string "@note")]).mpr fun parameter member =>
    ⟨declared_jobNote parameter member, by revert parameter; unfold Lacks; decide +kernel⟩
  have bound : first.2 = [.string "1'; DROP TABLE t --", .string "none?"] := by
    rw [(prelude.2.1 _ _ ran).2.1]
    decide +kernel
  refine ⟨first, second, ran, again, prelude.1 _ _ _ _ ran again, ?_, bound, ?_⟩
  · rw [(prelude.2.1 _ _ ran).1, bound]
    rfl
  · rw [(prelude.2.1 _ _ again).2.1]
    decide +kernel

/-- Of two maps of one name the one whose value is blank is refused. -/
theorem blank_value_refused :
    ¬ ∀ (parameters : List Record) (first second : Record), first.map Prod.fst = second.map Prod.fst →
      (buildParameterPrelude asciiPython Char.isDigit parameters first).map Prod.fst =
        (buildParameterPrelude asciiPython Char.isDigit parameters second).map Prod.fst := by
  intro same
  have alike := same [requiredJob] [("job", .string "")] [("job", .string "1")] rfl
  have written : buildParameterPrelude asciiPython Char.isDigit [requiredJob] [("job", .string "1")] = .ok _ :=
    buildParameterPrelude_eq_ok.mpr ⟨List.forall_mem_singleton.mpr declared_requiredJob,
      List.forall_mem_singleton.mpr fun lacks => absurd ((lacks_requiredJob_iff "1").mp lacks) (by decide +kernel), rfl⟩
  rw [written] at alike
  cases blank : buildParameterPrelude asciiPython Char.isDigit [requiredJob] [("job", .string "")] with
  | error why =>
      rw [blank] at alike
      cases alike
  | ok outcome =>
      obtain ⟨-, lacking, -⟩ := buildParameterPrelude_eq_ok.mp blank
      exact lacking requiredJob List.mem_cons_self ((lacks_requiredJob_iff "").mpr (by decide +kernel))

end DbaBrain.Lib.ParameterPrelude
