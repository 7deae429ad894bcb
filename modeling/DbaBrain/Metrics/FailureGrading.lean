import DbaBrain.Db.MetricStore

/-!
# Grading a failed collection

What a collection raised becomes one row: its severity is the metric's own for
the phase that failed, and the target's severity maps come after.
-/

namespace DbaBrain.Metrics.FailureGrading

open DbaBrain.Foundation.Text DbaBrain.Db.MetricStore

inductive Severity
  | ok
  | logging
  | warning
  | critical
  | error
  | noData
  deriving DecidableEq

def Severity.text : Severity → String
  | .ok => "OK"
  | .logging => "LOGGING"
  | .warning => "WARNING"
  | .critical => "CRITICAL"
  | .error => "ERROR"
  | .noData => "NO_DATA"

def severities : List Severity := [.ok, .logging, .warning, .critical, .error, .noData]

/-! ## What failed -/

/-- What a collection raised: its text, the phase it declares (none is empty), and what a command left. -/
structure Failure where
  text : String
  failurePhase : String
  rawStdout : Option String
  rawStderr : Option String
  exitCode : Option Int
  executionTime : Option ℚ

def connectFailedPatterns : List String :=
  ["timeout", "timed out", "connection timeout", "login timeout", "host unreachable", "network unreachable",
    "connection refused", "no valid connections", "cannot connect", "closed the connection", "ora-12541", "ora-12514",
    "ora-12505", "ora-12170", "ora-12543", "ora-12545", "ora-12537", "ora-12519", "ora-12520", "ora-12528", "ora-01033",
    "ora-01034"]

def authFailedPatterns : List String :=
  ["authentication failed", "auth failed", "access is denied", "negotiate authentication", "kerberos", "login failed",
    "ora-01017", "ora-28000", "ora-28001"]

def permissionDeniedPatterns : List String :=
  ["permission was denied", "permission denied", "execute permission", "not authorized"]

inductive ErrorType
  | checkFailed
  | remoteCommandNotAvailable
  | authFailed
  | connectFailed
  | permissionDenied
  | metricDataInvalid
  | queryFailed
  deriving DecidableEq

def ErrorType.text : ErrorType → String
  | .checkFailed => "CHECK_FAILED"
  | .remoteCommandNotAvailable => "REMOTE_COMMAND_NOT_AVAILABLE"
  | .authFailed => "AUTH_FAILED"
  | .connectFailed => "CONNECT_FAILED"
  | .permissionDenied => "PERMISSION_DENIED"
  | .metricDataInvalid => "METRIC_DATA_INVALID"
  | .queryFailed => "QUERY_FAILED"

/-- `_normalize_text`: the words of the text, one blank between two. -/
def normalizeText (message : String) : List Char :=
  [' '].intercalate (((replaceChar '\n' ' ' (replaceChar '\r' ' ' message)).toList.splitOnP isSpace).filter fun word =>
    word ≠ [])

/-- `lower`, as far as texts of ASCII are looked for in it: beside the capitals the Kelvin sign and the dotted capital
I have ASCII letters for lower case. -/
def lowered (chars : List Char) : List Char :=
  chars.flatMap fun c =>
    if c = Char.ofNat 0x212A then ['k'] else if c = Char.ofNat 0x130 then ['i', Char.ofNat 0x307] else [c.toLower]

def contains (text : List Char) (pattern : String) : Bool := text.tails.any fun rest => pattern.toList.isPrefixOf rest

def normalizeErrorType (message : String) : ErrorType :=
  let text := lowered (normalizeText message)
  if text = [] then .checkFailed
  else if contains text "[winerror 2]" || contains text "cannot find the file specified" then .remoteCommandNotAvailable
  else if authFailedPatterns.any (contains text) then .authFailed
  else if connectFailedPatterns.any (contains text) then .connectFailed
  else if permissionDeniedPatterns.any (contains text) then .permissionDenied
  else if contains text "metric_data_invalid" || contains text "data invalid" || contains text "invalid metric data" then
    .metricDataInvalid
  else if contains text "sql execution failed" then .queryFailed
  else .checkFailed

inductive Phase
  | connect
  | execute

def resolveFailurePhase (failure : Failure) : Phase :=
  let declared := asciiLower (strip failure.failurePhase)
  if declared = "connect" then .connect
  else if declared = "execute" then .execute
  else if normalizeErrorType failure.text ∈ [.connectFailed, .authFailed] then .connect
  else .execute

/-! ## The metric's severity and the target's -/

structure Variant where
  path : String
  repeatInterval : Option Nat

structure MetricDefinition where
  metricCode : String
  collectorType : String
  category : String
  intervalSeconds : Nat
  retryIntervalSeconds : Nat
  connectionErrorSeverity : Severity
  executionErrorSeverity : Severity
  variants : List Variant

/-- A target, with the severity maps of its `metrics_config` as they are written: its own, and those of its metrics. -/
structure MetricTarget where
  targetId : String
  serverId : String
  ip : String
  dbType : String
  dbName : String
  severityMap : List (String × String)
  metricOverrides : List (String × List (String × String))

def exceptionStatus (failure : Failure) (metric : MetricDefinition) : Severity :=
  match resolveFailurePhase failure with
  | .connect => metric.connectionErrorSeverity
  | .execute => metric.executionErrorSeverity

def normalizeOverrideStatus (value : String) : String :=
  let status := asciiUpper (strip value)
  if status = "WARN" then "WARNING" else status

def severityOf (value : String) : Option Severity :=
  severities.find? fun severity => severity.text = normalizeOverrideStatus value

/-- `_coerce_severity_map`: the entries both sides of which are severities. -/
def coerceSeverityMap (raw : List (String × String)) : List (Severity × Severity) :=
  raw.filterMap fun entry => (severityOf entry.1).bind fun source => (severityOf entry.2).map fun mapped => (source, mapped)

/-- `_metric_override_config`: the code as it is written, or else the first that is it but for case. -/
def metricOverrideConfig (target : MetricTarget) (metricCode : String) : List (String × String) :=
  match target.metricOverrides.lookup metricCode with
  | some config => config
  | none =>
      match target.metricOverrides.find? fun entry => asciiUpper entry.1 = asciiUpper metricCode with
      | some entry => entry.2
      | none => []

/-- The entries of the merged map, the ones that win last. -/
def resolveSeverityMap (target : MetricTarget) (metricCode : String) : List (Severity × Severity) :=
  coerceSeverityMap target.severityMap ++ coerceSeverityMap (metricOverrideConfig target metricCode)

def capitalize (text : String) : String :=
  match text.toList with
  | [] => ""
  | first :: rest => String.ofList (first.toUpper :: rest.map Char.toLower)

def appendPolicyNote (message note : String) : String :=
  if message = "" then capitalize note ++ "." else message ++ " Policy: " ++ note ++ "."

def remapNote (current mapped : Severity) : String :=
  "severity remapped " ++ current.text ++ "->" ++ mapped.text ++ " by metric_overrides"

def applyMetricResultOverrides (metric : MetricDefinition) (target : MetricTarget) (status : Severity)
    (message : String) : Severity × String :=
  match (resolveSeverityMap target metric.metricCode).reverse.lookup status with
  | none => (status, message)
  | some mapped => if mapped = status then (status, message) else (mapped, appendPolicyNote message (remapNote status mapped))

def Severity.isFinding : Severity → Bool
  | .ok => false
  | .logging => false
  | _ => true

/-- The one result of a collection that raised; `errorSignature` is `normalize_error_signature`. -/
def failureResult (errorSignature : String → String) (metric : MetricDefinition) (target : MetricTarget)
    (importance : Int) (collectedAt : String) (failure : Failure) : MetricResult :=
  let graded := applyMetricResultOverrides metric target (exceptionStatus failure metric) failure.text
  { targetId := target.targetId
    serverId := target.serverId
    ip := target.ip
    dbType := target.dbType
    dbName := target.dbName
    metricCode := metric.metricCode
    metricItem := none
    metricValue := none
    metricUnit := none
    status := graded.1.text
    importance := importance
    message := some graded.2
    collectedAt := collectedAt
    rawStdout := failure.rawStdout
    rawStderr := failure.rawStderr
    exitCode := failure.exitCode
    executionTime := failure.executionTime
    collectorType := some metric.collectorType
    category := some metric.category
    errorType := if graded.1.isFinding then some (normalizeErrorType graded.2).text else none
    normalizedErrorSignature := if graded.1.isFinding then some (errorSignature graded.2) else none }

def gradedSeverity (metric : MetricDefinition) (target : MetricTarget) (failure : Failure) : Severity :=
  (applyMetricResultOverrides metric target (exceptionStatus failure metric) failure.text).1

/-- The text begins as a failed query's does. -/
def saysSqlFailed (text : String) : Bool :=
  "sql execution failed:".toList.isPrefixOf (asciiLower (withoutNul text)).toList

def gradedAsFailure (metric : MetricDefinition) (target : MetricTarget) (failure : Failure) : Bool :=
  gradedSeverity metric target failure = .error ||
    (gradedSeverity metric target failure = .warning && saysSqlFailed failure.text)

/-! ## What the store reads of the row -/

theorem asciiUpper_text (severity : Severity) : asciiUpper severity.text = severity.text := by
  cases severity <;> decide

theorem text_injective : Function.Injective Severity.text := by
  intro first second same
  cases first <;> cases second <;> first | rfl | exact absurd same (by decide)

theorem toList_asciiLower_withoutNul (text : String) : (asciiLower (withoutNul text)).toList =
    (text.toList.filter fun c => c ≠ Char.ofNat 0).map Char.toLower := by
  rw [asciiLower, withoutNul, String.toList_ofList, String.toList_ofList]

/-- No end of the words a failed query's text begins with is the beginning of a note. -/
theorem end_of_words {rest : List Char} (isEnd : rest <:+ "sql execution failed:".toList)
    (noted : " policy: ".toList <+: rest ∨ rest <+: " policy: ".toList) : rest = [] := by
  have each : ∀ rest ∈ "sql execution failed:".toList.tails,
      " policy: ".toList <+: rest ∨ rest <+: " policy: ".toList → rest = [] := by decide
  exact each rest ((List.mem_tails _ _).mpr isEnd) noted

/-- So no note completes them. -/
theorem isPrefixOf_append_note {front note : List Char} (noted : " policy: ".toList <+: note) :
    "sql execution failed:".toList.isPrefixOf (front ++ note) = "sql execution failed:".toList.isPrefixOf front := by
  rw [Bool.eq_iff_iff, List.isPrefixOf_iff_prefix, List.isPrefixOf_iff_prefix]
  constructor
  · intro starts
    rcases List.prefix_or_prefix_of_prefix starts (List.prefix_append front note) with shorter | ⟨rest, whole⟩
    · exact shorter
    · rw [← whole, List.prefix_append_right_inj] at starts
      have ended : rest = [] := end_of_words ⟨front, whole⟩ (List.prefix_or_prefix_of_prefix noted starts)
      rw [← whole, ended, List.append_nil]
  · intro starts
    exact starts.trans (List.prefix_append front note)

theorem toList_capitalize {text : String} {first : Char} {rest : List Char} (spelled : text.toList = first :: rest) :
    (capitalize text).toList = first.toUpper :: rest.map Char.toLower := by
  unfold capitalize
  rw [spelled]
  exact String.toList_ofList

theorem saysSqlFailed_note (current mapped : Severity) :
    saysSqlFailed (capitalize (remapNote current mapped) ++ ".") = saysSqlFailed "" := by
  have spelled : (remapNote current mapped).toList = 's' :: 'e' :: ("verity remapped ".toList ++ current.text.toList ++
      "->".toList ++ mapped.text.toList ++ " by metric_overrides".toList) := by
    unfold remapNote
    rw [String.toList_append, String.toList_append, String.toList_append, String.toList_append]
    rfl
  unfold saysSqlFailed
  rw [toList_asciiLower_withoutNul, String.toList_append, toList_capitalize spelled]
  rfl

theorem saysSqlFailed_override (metric : MetricDefinition) (target : MetricTarget) (status : Severity) (message : String) :
    saysSqlFailed (applyMetricResultOverrides metric target status message).2 = saysSqlFailed message := by
  unfold applyMetricResultOverrides
  split
  · rfl
  · rename_i mapped _
    split
    · rfl
    · dsimp only [appendPolicyNote]
      split
      · rename_i empty
        rw [empty]
        exact saysSqlFailed_note status mapped
      · unfold saysSqlFailed
        rw [toList_asciiLower_withoutNul, toList_asciiLower_withoutNul]
        simp only [String.toList_append, List.filter_append, List.map_append, List.append_assoc]
        have words : (" Policy: ".toList.filter fun c => c ≠ Char.ofNat 0).map Char.toLower = " policy: ".toList := by
          decide
        rw [words]
        exact isPrefixOf_append_note (List.prefix_append _ _)

theorem readsAsFailure_iff {row : MetricRow} : readsAsFailure row = true ↔ asciiUpper row.status = "ERROR" ∨
    asciiUpper row.status = "WARNING" ∧
      "sql execution failed:".toList.isPrefixOf (asciiLower (row.message.getD "")).toList = true := by
  unfold readsAsFailure
  rw [Bool.or_eq_true, Bool.and_eq_true, decide_eq_true_eq, decide_eq_true_eq]

theorem readsAsFailure_failureResult (errorSignature : String → String) (metric : MetricDefinition)
    (target : MetricTarget) (importance runId : Int) (resultId : Nat) (collectedAt : String) (failure : Failure) :
    readsAsFailure (insertedRow runId resultId (failureResult errorSignature metric target importance collectedAt failure)) =
      gradedAsFailure metric target failure := by
  have error : ("ERROR" : String) = Severity.error.text := rfl
  have warning : ("WARNING" : String) = Severity.warning.text := rfl
  have spoken := saysSqlFailed_override metric target (exceptionStatus failure metric) failure.text
  unfold gradedAsFailure gradedSeverity
  rw [← spoken, Bool.eq_iff_iff, readsAsFailure_iff]
  dsimp only [insertedRow, failureResult, sqliteText, Option.map_some, Option.getD_some]
  rw [asciiUpper_text, error, warning, text_injective.eq_iff, text_injective.eq_iff]
  simp only [Bool.or_eq_true, Bool.and_eq_true, decide_eq_true_eq]
  rfl

end DbaBrain.Metrics.FailureGrading
