import DbaBrain.Foundation.Text
import Mathlib.Data.Option.Basic
import Mathlib.Tactic.Tauto

/-!
# Which variant of a metric runs, and whether one does

A metric's file is chosen among its variants by one function, and whether a target is
supported is told by another.  They agree on exactly the metrics and targets where no
wildcard, path or platform is read by one of them only.
-/

namespace DbaBrain.Metrics.VariantSupport

open DbaBrain.Foundation.Text

structure MetricVariant where
  name : String
  dbType : String
  platform : String
  supported : Bool
  minMajorVersion : Option ℤ
  maxMajorVersion : Option ℤ
  unsupportedReason : String
  path : Option String

structure MetricDefinition where
  dbType : String
  collectorType : String
  hostFallback : Bool
  path : Option String
  variants : List MetricVariant

structure CmdAccess where
  enabled : Bool
  method : String

/-- A target; `connectionInfo` is the whole number a key's value reads as. -/
structure MetricTarget where
  targetId : String
  dbType : String
  platform : String
  containerName : String
  cmdAccess : CmdAccess
  connectionInfo : String → Option ℤ

def targetMajorVersion (target : MetricTarget) : Option ℤ :=
  ((target.connectionInfo (target.dbType ++ "_major_version")).filter fun major => major ≠ 0).or
    (target.connectionInfo "major_version")

/-! ## The choice of a variant -/

structure TargetProfile where
  dbType : String
  majorVersion : Option ℤ
  platform : String

def dbTypeAliases : List (String × String) :=
  [("mssql", "sqlserver"), ("sql_server", "sqlserver"), ("sqlsvr", "sqlserver"), ("postgres", "postgresql"),
    ("pgsql", "postgresql"), ("pg", "postgresql"), ("mariadb", "mysql"), ("oracle-xe", "oracle"),
    ("oraclexe", "oracle")]

section Selection

variable (lower : String → String) (metric : MetricDefinition) (target : MetricTarget)

def normalizeDbType (dbType : String) : String :=
  (dbTypeAliases.lookup (lower (strip dbType))).getD (lower (strip dbType))

def targetProfile : TargetProfile :=
  { dbType := normalizeDbType lower target.dbType
    majorVersion := targetMajorVersion target
    platform := lower (strip target.platform) }

/-- The spellings a variant may use to mean any engine. -/
def anyDbType : List String := ["", "all", "multi", "*"]

def candidateVariants (variants : List MetricVariant) (profile : TargetProfile) (matchPlatform : Bool) :
    List MetricVariant :=
  variants.filter fun variant =>
    if matchPlatform then
      (variant.platform = "" || variant.platform = profile.platform) &&
        (variant.dbType ∈ anyDbType || variant.dbType = profile.dbType)
    else variant.dbType = profile.dbType

def versionMatches (variant : MetricVariant) (majorVersion : Option ℤ) : Bool :=
  match majorVersion with
  | none => true
  | some major =>
      (variant.minMajorVersion.all fun minimum => minimum ≤ major) &&
        variant.maxMajorVersion.all fun maximum => major ≤ maximum

def selectVariant (candidates : List MetricVariant) (profile : TargetProfile) : Option MetricVariant :=
  match profile.majorVersion with
  | none => (candidates.filter fun variant => variant.supported && variant.path.isSome).getLast?
  | some major => candidates.find? fun variant => variant.supported && versionMatches variant (some major)

def supportedCmdPlatforms : List String := ["windows", "linux"]

/-- The end of `_resolve_metric_file_path`, with the variants that could apply. -/
def pathAmong (profile : TargetProfile) (variants : List MetricVariant) : Option String :=
  if variants.isEmpty then metric.path
  else
    let chosen := selectVariant variants profile
    match profile.majorVersion with
    | none => metric.path.or (chosen.bind MetricVariant.path)
    | some _ =>
        match chosen with
        | some variant => variant.path
        | none => metric.path

def resolveMetricFilePath : Except String (Option String) :=
  let profile := targetProfile lower target
  if metric.collectorType = "cmd" then
    if profile.platform = "" then
      .error ("Target platform is required for cmd metric: " ++ target.targetId ++
        ". Set \"platform\": \"linux\" or \"windows\" on the db instance (not inside cmd_access), or an \"os\" " ++
        "field it can be inferred from.")
    else if profile.platform ∉ supportedCmdPlatforms then
      .error ("Unsupported target platform for cmd metric: " ++ profile.platform)
    else .ok (pathAmong metric profile (candidateVariants metric.variants profile true))
  else .ok (pathAmong metric profile (candidateVariants metric.variants profile false))

/-! ## The reason a target is not supported -/

def runsOnHost : Bool :=
  metric.collectorType = "docker" && metric.hostFallback && strip target.containerName = "" &&
    target.cmdAccess.enabled && lower (strip target.cmdAccess.method) = "ssh"

def transportReason : Option String :=
  if metric.collectorType = "cmd" && !target.cmdAccess.enabled then
    some "no cmd_access is configured on this target (an OS metric needs a way onto the host)"
  else if metric.collectorType = "docker" && strip target.containerName = "" && !runsOnHost lower metric target then
    if metric.hostFallback then
      some ("no container_name and no SSH cmd_access on this target (this metric reads a container's log, or a host " ++
        "install's log files through the host login)")
    else some "no container_name is configured on this target (a docker metric needs a container)"
  else if metric.collectorType = "k8s" then
    some "k8s collector is not implemented yet (reserved collector_type)"
  else none

/-- The variants the reason looks at. -/
def listedVariants : List MetricVariant :=
  let variants := metric.variants.filter fun variant =>
    variant.dbType ∈ [target.dbType, "all", "multi", "*", ""]
  if metric.collectorType = "cmd" && target.platform ≠ "" then
    variants.filter fun variant => variant.platform = "" || variant.platform = target.platform
  else variants

def MetricVariant.refusal (variant : MetricVariant) : String :=
  if variant.unsupportedReason = "" then "variant " ++ variant.name ++ " is marked unsupported"
  else variant.unsupportedReason

def versionReason (majorVersion : Option ℤ) (matched : List MetricVariant) : String :=
  if matched.any MetricVariant.supported then ""
  else if matched ≠ [] then "; ".intercalate (matched.map MetricVariant.refusal)
  else
    match majorVersion with
    | none => ""
    | some major => "no supported " ++ target.dbType ++ " variant for major_version=" ++ toString major

def metricUnsupportedReason : String :=
  match transportReason lower metric target with
  | some reason => reason
  | none =>
      let variants := listedVariants metric target
      if variants.isEmpty then
        if metric.dbType ∈ [target.dbType, "all", "multi", "*"] then ""
        else "db_type " ++ target.dbType ++ " is not defined for this metric"
      else
        let majorVersion := targetMajorVersion target
        versionReason target majorVersion (variants.filter fun variant => versionMatches variant majorVersion)

/-! ## What agrees -/

structure Meets (variant : MetricVariant) : Prop where
  engine : variant.dbType = (targetProfile lower target).dbType ∨ variant.dbType ∈ anyDbType
  platform : metric.collectorType = "cmd" →
    variant.platform = "" ∨ variant.platform = (targetProfile lower target).platform
  version : versionMatches variant (targetMajorVersion target) = true

def Runs : Prop :=
  ∃ path, resolveMetricFilePath lower metric target = .ok (some path) ∧
    (metric.path = some path ∨
      ∃ variant ∈ metric.variants, variant.path = some path ∧ Meets lower metric target variant)

/-- There is a way onto the target. -/
def HasTransport : Prop :=
  (metric.collectorType = "cmd" → target.cmdAccess.enabled = true) ∧
    (metric.collectorType = "docker" → strip target.containerName ≠ "" ∨ runsOnHost lower metric target = true) ∧
    metric.collectorType ≠ "k8s"

def PlatformKnown : Prop :=
  metric.collectorType = "cmd" → (targetProfile lower target).platform ∈ supportedCmdPlatforms

/-- A supported variant with the target's version inside its bounds. -/
def fits (variant : MetricVariant) : Bool := variant.supported && versionMatches variant (targetMajorVersion target)

def candidates : List MetricVariant :=
  candidateVariants metric.variants (targetProfile lower target) (metric.collectorType = "cmd")

/-- Without a version, the metric or a supported candidate has a path; with one, the first candidate that fits, or the
metric where none does. -/
def HasPath : Prop :=
  match targetMajorVersion target with
  | none => metric.path.isSome ∨ ∃ variant ∈ candidates lower metric target, variant.supported ∧ variant.path.isSome
  | some _ => (match (candidates lower metric target).find? (fits target) with
      | some variant => variant.path
      | none => metric.path).isSome

/-- Where the two agree. -/
structure Agrees : Prop where
  unreached : ¬HasTransport lower metric target → PlatformKnown lower metric target → ¬HasPath lower metric target
  fitting : HasTransport lower metric target → (∃ variant ∈ listedVariants metric target, fits target variant) →
    PlatformKnown lower metric target ∧ HasPath lower metric target
  unfitting : HasTransport lower metric target → listedVariants metric target ≠ [] →
    (∀ variant ∈ listedVariants metric target, ¬fits target variant) → PlatformKnown lower metric target →
      ¬HasPath lower metric target
  unlisted : HasTransport lower metric target → listedVariants metric target = [] →
    (metric.dbType ∈ [target.dbType, "all", "multi", "*"] ↔
      PlatformKnown lower metric target ∧ HasPath lower metric target)

end Selection

section Agreement

variable {lower : String → String} {metric : MetricDefinition} {target : MetricTarget} {variant : MetricVariant}

theorem transportReason_eq_none_iff :
    transportReason lower metric target = none ↔ HasTransport lower metric target := by
  unfold transportReason HasTransport
  by_cases cmd : metric.collectorType = "cmd"
  · cases target.cmdAccess.enabled <;> simp [cmd]
  · by_cases docker : metric.collectorType = "docker"
    · by_cases contained : strip target.containerName = "" <;> cases on_host : runsOnHost lower metric target <;>
        cases metric.hostFallback <;> simp [docker, contained]
    · simp [cmd, docker]

theorem transportReason_ne_empty {reason : String} (given : transportReason lower metric target = some reason) :
    reason ≠ "" := by
  unfold transportReason at given
  split at given
  · cases given
    decide
  split at given
  · split at given <;> cases given <;> decide
  split at given
  · cases given
    decide
  · cases given

theorem refusal_ne_empty : variant.refusal ≠ "" := by
  unfold MetricVariant.refusal
  split
  · exact append_ne_empty _ (append_ne_empty _ (by decide))
  · next stated => exact stated

theorem intercalate_ne_empty {first : String} {rest : List String} (stated : first ≠ "") :
    "; ".intercalate (first :: rest) ≠ "" := by
  intro nothing
  have texts := congrArg String.toList nothing
  rw [String.toList_intercalate] at texts
  cases rest with
  | nil => exact stated (String.toList_inj.mp (by simpa using texts))
  | cons second rest => simp at texts

theorem versionReason_eq_empty_iff {majorVersion : Option ℤ} {matched : List MetricVariant} :
    versionReason target majorVersion matched = "" ↔
      (∃ variant ∈ matched, variant.supported = true) ∨ matched = [] ∧ majorVersion = none := by
  unfold versionReason
  by_cases supported : matched.any MetricVariant.supported = true
  · rw [if_pos supported]
    exact ⟨fun _ => .inl (List.any_eq_true.mp supported), fun _ => rfl⟩
  · rw [if_neg supported]
    have none_supported : ¬∃ variant ∈ matched, variant.supported = true := mt List.any_eq_true.mpr supported
    rw [or_iff_right none_supported]
    cases matched with
    | nil =>
      cases majorVersion with
      | none => simp
      | some major => simp
    | cons first rest =>
      have stated : "; ".intercalate ((first :: rest).map MetricVariant.refusal) ≠ "" :=
        intercalate_ne_empty refusal_ne_empty
      rw [if_pos (List.cons_ne_nil _ _)]
      exact ⟨fun nothing => absurd nothing stated, fun both => nomatch both.1⟩

theorem reason_eq_empty_iff : metricUnsupportedReason lower metric target = "" ↔ HasTransport lower metric target ∧
    ((∃ variant ∈ listedVariants metric target, fits target variant) ∨
      listedVariants metric target = [] ∧ metric.dbType ∈ [target.dbType, "all", "multi", "*"]) := by
  rw [metricUnsupportedReason, ← transportReason_eq_none_iff]
  cases transport : transportReason lower metric target with
  | some reason => simpa using transportReason_ne_empty transport
  | none =>
    rw [and_iff_right rfl]
    dsimp only
    cases listed : listedVariants metric target with
    | nil =>
      have stated : "db_type " ++ target.dbType ++ " is not defined for this metric" ≠ "" :=
        append_ne_empty _ (append_ne_empty _ (by decide))
      by_cases own : metric.dbType ∈ [target.dbType, "all", "multi", "*"]
      · simp only [List.isEmpty_nil, own, if_true]
        exact ⟨fun _ => .inr ⟨trivial, trivial⟩, fun _ => trivial⟩
      · simp only [List.isEmpty_nil, own, if_true, if_false, stated, and_false, or_false, false_iff]
        rintro ⟨variant, member, _⟩
        cases member
    | cons first rest =>
      rw [List.isEmpty_cons, if_neg Bool.false_ne_true, versionReason_eq_empty_iff]
      -- without a version every listed variant matches
      have matches_some : ¬(((first :: rest).filter fun variant =>
          versionMatches variant (targetMajorVersion target)) = [] ∧ targetMajorVersion target = none) := by
        rintro ⟨nothing, unknown⟩
        have member := List.filter_eq_nil_iff.mp nothing first List.mem_cons_self
        rw [unknown] at member
        exact member rfl
      rw [or_iff_left matches_some]
      simp only [List.mem_filter, fits, Bool.and_eq_true, reduceCtorEq, false_and, or_false]
      exact exists_congr fun _ => by tauto

theorem meets_of_mem_candidates (member : variant ∈ candidates lower metric target)
    (matched : versionMatches variant (targetMajorVersion target) = true) :
    variant ∈ metric.variants ∧ Meets lower metric target variant := by
  obtain ⟨listed, kept⟩ := List.mem_filter.mp member
  refine ⟨listed, ?_, fun cmd => ?_, matched⟩
  · by_cases cmd : metric.collectorType = "cmd"
    · simp only [cmd, decide_true, if_true, Bool.and_eq_true, Bool.or_eq_true, decide_eq_true_eq] at kept
      exact kept.2.symm
    · simp only [cmd, decide_false, Bool.false_eq_true, if_false, decide_eq_true_eq] at kept
      exact .inl kept
  · simp only [cmd, decide_true, if_true, Bool.and_eq_true, Bool.or_eq_true, decide_eq_true_eq] at kept
    exact kept.1

/-- A path that is found is the metric's own, or a candidate's with the version inside its bounds. -/
theorem pathAmong_eq_some {path : String}
    (found : pathAmong metric (targetProfile lower target) (candidates lower metric target) = some path) :
    metric.path = some path ∨ ∃ variant ∈ candidates lower metric target,
      variant.path = some path ∧ versionMatches variant (targetMajorVersion target) = true := by
  unfold pathAmong at found
  split at found
  · exact .inl found
  dsimp only [targetProfile] at found
  unfold selectVariant at found
  cases version : targetMajorVersion target with
  | none =>
    simp only [version] at found
    rcases Option.or_eq_some_iff.mp found with own | ⟨_, chosen⟩
    · exact .inl own
    · obtain ⟨variant, last, its⟩ := Option.bind_eq_some_iff.mp chosen
      exact .inr ⟨variant, (List.mem_filter.mp (List.mem_of_getLast? last)).1, its, rfl⟩
  | some major =>
    simp only [version] at found
    split at found
    · next variant chosen =>
        have both := List.find?_some chosen
        exact .inr ⟨variant, List.mem_of_find?_eq_some chosen, found, (Bool.and_eq_true _ _ ▸ both).2⟩
    · exact .inl found

theorem isSome_last_path {variants : List MetricVariant} :
    (((variants.filter fun variant => variant.supported && variant.path.isSome).getLast?).bind
      MetricVariant.path).isSome ↔ ∃ variant ∈ variants, variant.supported ∧ variant.path.isSome := by
  constructor
  · intro found
    obtain ⟨path, found⟩ := Option.isSome_iff_exists.mp found
    obtain ⟨variant, last, _⟩ := Option.bind_eq_some_iff.mp found
    obtain ⟨member, kept⟩ := List.mem_filter.mp (List.mem_of_getLast? last)
    exact ⟨variant, member, by simpa using kept⟩
  · rintro ⟨variant, member, kept⟩
    cases last : (variants.filter fun variant => variant.supported && variant.path.isSome).getLast? with
    | none =>
      have dropped := List.filter_eq_nil_iff.mp (List.getLast?_eq_none_iff.mp last) variant member
      exact absurd kept (by simpa using dropped)
    | some chosen =>
      have both := (List.mem_filter.mp (List.mem_of_getLast? last)).2
      exact (Bool.and_eq_true _ _ ▸ both).2

theorem isSome_pathAmong : (pathAmong metric (targetProfile lower target) (candidates lower metric target)).isSome ↔
    HasPath lower metric target := by
  unfold HasPath pathAmong
  dsimp only [targetProfile]
  unfold selectVariant
  cases version : targetMajorVersion target with
  | none =>
    dsimp only
    cases there : candidates lower metric target with
    | nil => simp
    | cons first rest =>
      rw [List.isEmpty_cons, if_neg Bool.false_ne_true, Option.isSome_or, Bool.or_eq_true]
      exact or_congr_right isSome_last_path
  | some major =>
    dsimp only
    have same : fits target = fun variant => variant.supported && versionMatches variant (some major) := by
      funext variant
      rw [fits, version]
    rw [same]
    cases there : candidates lower metric target with
    | nil => rfl
    | cons first rest =>
      rw [List.isEmpty_cons, if_neg Bool.false_ne_true]

theorem resolve_eq_of_known (known : PlatformKnown lower metric target) : resolveMetricFilePath lower metric target =
    .ok (pathAmong metric (targetProfile lower target) (candidates lower metric target)) := by
  unfold resolveMetricFilePath candidates
  by_cases cmd : metric.collectorType = "cmd"
  · have listed := known cmd
    have stated : (targetProfile lower target).platform ≠ "" := by
      intro nothing
      rw [nothing] at listed
      exact absurd listed (by decide)
    simp only [cmd, if_true, decide_true, stated, if_false, listed, not_true_eq_false]
  · simp only [cmd, if_false, decide_false]

theorem resolve_ne_ok_of_unknown (unknown : ¬PlatformKnown lower metric target) (path : Option String) :
    resolveMetricFilePath lower metric target ≠ .ok path := by
  obtain ⟨cmd, unlisted⟩ := Classical.not_imp.mp unknown
  unfold resolveMetricFilePath
  simp only [cmd, if_true, unlisted, not_false_eq_true]
  split <;> exact fun same => nomatch same

theorem runs_iff : Runs lower metric target ↔ PlatformKnown lower metric target ∧ HasPath lower metric target := by
  rw [← isSome_pathAmong]
  constructor
  · rintro ⟨path, resolved, _⟩
    by_cases known : PlatformKnown lower metric target
    · rw [resolve_eq_of_known known] at resolved
      refine ⟨known, ?_⟩
      rw [Except.ok.inj resolved]
      rfl
    · exact absurd resolved (resolve_ne_ok_of_unknown known _)
  · rintro ⟨known, some_path⟩
    obtain ⟨path, found⟩ := Option.isSome_iff_exists.mp some_path
    refine ⟨path, (resolve_eq_of_known known).trans (congrArg _ found), ?_⟩
    rcases pathAmong_eq_some found with own | ⟨variant, member, its, matched⟩
    · exact .inl own
    · obtain ⟨listed, meets⟩ := meets_of_mem_candidates member matched
      exact .inr ⟨variant, listed, its, meets⟩

end Agreement

/-- The reason is empty exactly for what runs on its own path or on that of a variant the target meets, on exactly the
metrics and targets where the two agree. -/
theorem support_agrees_iff (lower : String → String) (metric : MetricDefinition) (target : MetricTarget) :
    (metricUnsupportedReason lower metric target = "" ↔ Runs lower metric target) ↔ Agrees lower metric target := by
  rw [reason_eq_empty_iff, runs_iff]
  constructor
  · intro agree
    refine ⟨fun missing known has => missing (agree.mpr ⟨known, has⟩).1, fun transport fitting =>
      agree.mp ⟨transport, .inl fitting⟩, fun _ listed unfitting known has => ?_, fun transport nothing => ?_⟩
    · rcases (agree.mpr ⟨known, has⟩).2 with ⟨variant, member, fit⟩ | ⟨nothing, _⟩
      · exact unfitting variant member fit
      · exact listed nothing
    · rw [← agree, and_iff_right transport, and_iff_right nothing]
      refine (or_iff_right ?_).symm
      rintro ⟨variant, member, _⟩
      rw [nothing] at member
      cases member
  · intro agrees
    constructor
    · rintro ⟨transport, fitting | ⟨nothing, own⟩⟩
      · exact agrees.fitting transport fitting
      · exact (agrees.unlisted transport nothing).mp own
    · rintro ⟨known, has⟩
      have transport : HasTransport lower metric target := by
        by_contra missing
        exact agrees.unreached missing known has
      refine ⟨transport, ?_⟩
      by_cases nothing : listedVariants metric target = []
      · exact .inr ⟨nothing, (agrees.unlisted transport nothing).mpr ⟨known, has⟩⟩
      · by_contra none_fits
        rw [not_or] at none_fits
        refine agrees.unfitting transport nothing (fun variant member fit => ?_) known has
        exact none_fits.1 ⟨variant, member, fit⟩

/-- An SQL metric whose one variant is for any engine, and an Oracle target. -/
def instanceStatus : MetricDefinition :=
  { dbType := "multi", collectorType := "sql", hostFallback := false, path := none
    variants := [⟨"any", "multi", "", true, none, none, "", some "instance_status.sql"⟩] }

def oracleTarget : MetricTarget :=
  { targetId := "ora-1", dbType := "oracle", platform := "linux", containerName := "", cmdAccess := ⟨false, ""⟩
    connectionInfo := fun _ => some 19 }

/-- It is not skipped, and nothing is found to run. -/
theorem any_engine_not_resolved : metricUnsupportedReason asciiLower instanceStatus oracleTarget = "" ∧
    ¬Runs asciiLower instanceStatus oracleTarget := by
  refine ⟨by decide +kernel, ?_⟩
  rintro ⟨path, resolved, _⟩
  have nothing : resolveMetricFilePath asciiLower instanceStatus oracleTarget = .ok none := by rfl
  rw [nothing] at resolved
  cases resolved

end DbaBrain.Metrics.VariantSupport
