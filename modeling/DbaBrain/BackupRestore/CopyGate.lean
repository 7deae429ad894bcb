import DbaBrain.Foundation.Text

/-!
# The copy gate

`copy_verified_batch` hashes the sources in one call, the targets in another,
and then copies in rounds: everything still pending is copied, everything
copied is hashed, and what does not match is copied again.  A file's target
belongs to it alone exactly when no two files that are there name one target,
and then a proven file is the right file.
-/

namespace DbaBrain.BackupRestore.CopyGate

open DbaBrain.Foundation

/-! ## The files and their hashes -/

/-- `sha256` in hexadecimal, and the length in bytes. -/
structure Hashing (β : Type) where
  digest : β → String
  length : β → Nat
  lower_digest : ∀ content, Text.asciiLower (digest content) = digest content
  digest_ne_empty : ∀ content, digest content ≠ ""

/-- What a server holds, by path. -/
abbrev Files (β : Type) := String → Option β

/-- A hasher's answer about one file; the size may not have been read. -/
abbrev Found := String × Option Nat

/-- What one copy does to its target, and what it answers. -/
structure CopyEffect (β : Type) where
  leaves : Option β → Option β
  answer : Except String (Option Nat)

/-- The transport of a run.  Hash call 0 asks the sources, call 1 the targets before the copy, and
call `n + 1` the targets after round `n`; a copy is known by its round and its place in the batch. -/
structure Transport (β : Type) where
  unreachable : Nat → Option String
  sizeRead : Nat → String → Bool
  copies : Nat → Nat → CopyEffect β

inductive Uncatalogued
  | compareCopy
  | refuse
  deriving DecidableEq

structure RestoreIntegrity where
  copyMaxRetry : Nat
  verifySourceBeforeCopy : Bool
  uncatalogued : Uncatalogued

structure FileToCopy where
  sourceServerId : String
  targetServerId : String
  fileName : String
  sourcePath : String
  targetPath : String
  checksumAfterBackup : Option String

inductive AttemptResult
  | matched
  | mismatch
  | copyError
  deriving DecidableEq

structure Attempt where
  attemptNo : Nat
  result : AttemptResult
  checksumTargetAfterCopy : Option String
  sizeTargetAfterCopy : Option Nat
  bytesCopied : Option Nat
  errorText : String

inductive Verdict
  | copying
  | matched
  | copied
  | recopied
  | sourceMismatch
  | sourceMissing
  | uncataloguedRefused
  | copyFailedAfterRetries

def Verdict.proven : Verdict → Bool
  | .matched | .copied | .recopied => true
  | _ => false

/-- The outcome of a file, with the two sizes its row records. -/
structure FileOutcome where
  verdict : Verdict
  checksumSourceBeforeCopy : Option String
  checksumTargetBeforeCopy : Option String
  checksumTargetAfterCopy : Option String
  sizeSourceBytes : Option Nat
  sizeTargetBytes : Option Nat
  attempts : List Attempt
  reason : String

def sameBytes (found : Option Found) (sha256 : Option String) (size : Option Nat) : Bool :=
  match found, sha256 with
  | some (foundSha, foundSize), some sha =>
      if sha = "" ∨ foundSha = "" ∨ Text.asciiLower foundSha ≠ Text.asciiLower sha then false
      else foundSize = none || size = none || foundSize = size
  | _, _ => false

def sizeNote (foundSize size : Option Nat) : String :=
  match foundSize, size with
  | some found, some source =>
      if found = source then "" else toString found ++ " bytes on the target, " ++ toString source ++ " at the source"
  | _, _ => ""

/-! ## The batch -/

/-- One file of the batch: its place, its outcome so far, and whether it is still to copy. -/
structure Slot where
  index : Nat
  item : FileToCopy
  outcome : FileOutcome
  pending : Bool

def newOutcome : FileOutcome := ⟨.copying, none, none, none, none, none, [], ""⟩

def missingReason (item : FileToCopy) : String := item.sourcePath ++ " is not on " ++ item.sourceServerId

def mismatchReason (item : FileToCopy) (source recorded : String) : String :=
  item.sourcePath ++ " on " ++ item.sourceServerId ++ " hashes " ++ Text.take 12 source ++
    "... but its backup recorded " ++ Text.take 12 recorded ++ "... - the backup changed after it was written"

/-- Step 1: the source held to what its backup recorded. -/
def admitItem (integrity : RestoreIntegrity) (index : Nat) (item : FileToCopy) (found : Option Found) : Slot :=
  match found with
  | none => ⟨index, item, { newOutcome with verdict := .sourceMissing, reason := missingReason item }, false⟩
  | some (source, size) =>
      let outcome := { newOutcome with checksumSourceBeforeCopy := some source, sizeSourceBytes := size }
      match item.checksumAfterBackup with
      | none =>
          if integrity.uncatalogued = .refuse then
            ⟨index, item, { outcome with
              verdict := .uncataloguedRefused
              reason := "no backup recorded this file, and the entry refuses one" }, false⟩
          else ⟨index, item, outcome, true⟩
      | some recorded =>
          if integrity.verifySourceBeforeCopy = true ∧ source ≠ recorded then
            ⟨index, item, { outcome with
              verdict := .sourceMismatch
              reason := mismatchReason item source recorded }, false⟩
          else ⟨index, item, outcome, true⟩

/-- Step 2: a target that already holds the bytes is not copied. -/
def Slot.compareBefore (slot : Slot) (found : Option Found) : Slot :=
  if slot.pending then
    let outcome := { slot.outcome with checksumTargetBeforeCopy := found.map Prod.fst }
    if sameBytes found slot.outcome.checksumSourceBeforeCopy slot.outcome.sizeSourceBytes then
      { slot with
        outcome := { outcome with
          verdict := .matched
          checksumTargetAfterCopy := found.map Prod.fst
          sizeTargetBytes := found.bind Prod.snd }
        pending := false }
    else { slot with outcome := outcome }
  else slot

/-- What one attempt is recorded as. -/
def attemptOf (attemptNo : Nat) (slot : Slot) (answer : Except String (Option Nat)) (found : Option Found) : Attempt :=
  match answer, found with
  | .error text, _ => ⟨attemptNo, .copyError, none, none, none, Text.take 2000 text⟩
  | .ok bytes, none =>
      ⟨attemptNo, .copyError, none, none, bytes,
        slot.item.targetPath ++ " is not on " ++ slot.item.targetServerId ++ " after the copy"⟩
  | .ok bytes, some (sha, size) =>
      if sameBytes (some (sha, size)) slot.outcome.checksumSourceBeforeCopy slot.outcome.sizeSourceBytes then
        ⟨attemptNo, .matched, some sha, size, bytes, ""⟩
      else
        ⟨attemptNo, .mismatch, some sha, size, bytes,
          if some sha = slot.outcome.checksumSourceBeforeCopy then sizeNote size slot.outcome.sizeSourceBytes else ""⟩

/-- A pending file after a round; the row's size is the last attempt's. -/
def Slot.judge (slot : Slot) (attempt : Attempt) : Slot :=
  if slot.pending then
    { slot with
      outcome := { slot.outcome with
        attempts := slot.outcome.attempts ++ [attempt]
        checksumTargetAfterCopy := attempt.checksumTargetAfterCopy.or slot.outcome.checksumTargetAfterCopy
        sizeTargetBytes := attempt.sizeTargetAfterCopy
        verdict :=
          if attempt.result = .matched then if attempt.attemptNo = 1 then .copied else .recopied
          else slot.outcome.verdict }
      pending := attempt.result ≠ .matched }
  else slot

def lastError (slot : Slot) : String :=
  match slot.outcome.attempts.getLast? with
  | some last => if last.errorText = "" then "" else " - last: " ++ last.errorText
  | none => ""

def Slot.giveUp (total : Nat) (slot : Slot) : Slot :=
  if slot.pending then
    { slot with outcome := { slot.outcome with
      verdict := .copyFailedAfterRetries
      reason := slot.item.fileName ++ ": " ++ toString total ++ " attempt(s), none arrived equal to the source" ++
        lastError slot } }
  else slot

section Run

variable {β : Type} (hashing : Hashing β) (transport : Transport β)

def hashAt (call : Nat) (files : Files β) (path : String) : Option Found :=
  (files path).map fun content =>
    (hashing.digest content, if transport.sizeRead call path then some (hashing.length content) else none)

/-- The copies of one round, in order. -/
def copyAll (attemptNo : Nat) : List Slot → Files β → Files β
  | [], files => files
  | slot :: rest, files =>
      copyAll attemptNo rest
        (if slot.pending then
          Function.update files slot.item.targetPath
            ((transport.copies attemptNo slot.index).leaves (files slot.item.targetPath))
        else files)

def anyCopied (attemptNo : Nat) (slots : List Slot) : Bool :=
  slots.any fun slot => slot.pending && (transport.copies attemptNo slot.index).answer.isOk

/-- A hash call is made when there is something to ask about. -/
def reached (call : Nat) (asked : Bool) : Except String Unit :=
  match transport.unreachable call with
  | some text => if asked then .error text else .ok ()
  | none => .ok ()

def judgeAll (attemptNo : Nat) (files : Files β) (slots : List Slot) : List Slot :=
  slots.map fun slot =>
    slot.judge (attemptOf attemptNo slot (transport.copies attemptNo slot.index).answer
      (hashAt hashing transport (attemptNo + 1) files slot.item.targetPath))

/-- Step 3: the rounds. -/
def rounds : Nat → Nat → List Slot → Files β → Except String (List Slot × Files β)
  | 0, _, slots, files => .ok (slots, files)
  | left + 1, attemptNo, slots, files =>
      if slots.any Slot.pending then
        match reached transport (attemptNo + 1) (anyCopied transport attemptNo slots) with
        | .error text => .error text
        | .ok () =>
            rounds left (attemptNo + 1) (judgeAll hashing transport attemptNo (copyAll transport attemptNo slots files) slots)
              (copyAll transport attemptNo slots files)
      else .ok (slots, files)

def admitAll (integrity : RestoreIntegrity) (sources : Files β) : Nat → List FileToCopy → List Slot
  | _, [] => []
  | index, item :: rest =>
      admitItem integrity index item (hashAt hashing transport 0 sources item.sourcePath) ::
        admitAll integrity sources (index + 1) rest

def compareAll (targets : Files β) (slots : List Slot) : List Slot :=
  slots.map fun slot => slot.compareBefore (hashAt hashing transport 1 targets slot.item.targetPath)

/-- The slots as the run leaves them, and the target. -/
def settle (integrity : RestoreIntegrity) (sources targets : Files β) (items : List FileToCopy) :
    Except String (List Slot × Files β) := do
  reached transport 0 true
  let admitted := admitAll hashing transport integrity sources 0 items
  reached transport 1 (admitted.any Slot.pending)
  let (slots, files) ← rounds hashing transport (integrity.copyMaxRetry + 1) 1
    (compareAll hashing transport targets admitted) targets
  return (slots.map (Slot.giveUp (integrity.copyMaxRetry + 1)), files)

def copyVerifiedBatch (integrity : Option RestoreIntegrity) (sources targets : Files β) (items : List FileToCopy) :
    Except String (List FileOutcome × Files β) :=
  match integrity with
  | none => .error "no integrity stated for this run."
  | some integrity => (settle hashing transport integrity sources targets items).map fun (slots, files) =>
      (slots.map Slot.outcome, files)

end Run

/-! ## What is claimed of a batch -/

section Claimed

variable {β : Type} (hashing : Hashing β)

/-- A proven file lies at its target with its source's hash, the checksum its backup recorded when the
policy verifies it, and its source's size where both were read. -/
def RightFile (integrity : RestoreIntegrity) (sources files : Files β) (item : FileToCopy) (outcome : FileOutcome) : Prop :=
  outcome.verdict.proven = true →
    ∃ source target, sources item.sourcePath = some source ∧ files item.targetPath = some target ∧
      hashing.digest target = hashing.digest source ∧
      (integrity.verifySourceBeforeCopy = true → ∀ recorded ∈ item.checksumAfterBackup, hashing.digest target = recorded) ∧
      (outcome.sizeSourceBytes ≠ none → outcome.sizeTargetBytes ≠ none →
        hashing.length target = hashing.length source)

/-- The attempts are numbered from one, are no more than the policy allows, and end at the first match. -/
structure AttemptsInOrder (integrity : RestoreIntegrity) (outcome : FileOutcome) : Prop where
  numbered : outcome.attempts.map Attempt.attemptNo = List.range' 1 outcome.attempts.length
  bounded : outcome.attempts.length ≤ integrity.copyMaxRetry + 1
  only_last : ∀ attempt ∈ outcome.attempts.dropLast, attempt.result ≠ .matched

/-- Whatever the policy, the target before, and the way the copies go, every file is right. -/
def ProvesRightFiles (sources : Files β) (items : List FileToCopy) : Prop :=
  ∀ integrity transport targets outcomes files,
    copyVerifiedBatch hashing transport (some integrity) sources targets items = .ok (outcomes, files) →
      List.Forall₂ (fun item outcome =>
        RightFile hashing integrity sources files item outcome ∧ AttemptsInOrder integrity outcome) items outcomes

/-- No two files that are there name one target. -/
def OneTargetEach (sources : Files β) (items : List FileToCopy) : Prop :=
  items.Pairwise fun item other =>
    sources item.sourcePath ≠ none → sources other.sourcePath ≠ none → item.targetPath ≠ other.targetPath

end Claimed

/-! ## What a slot keeps -/

section Kept

variable {β : Type} {hashing : Hashing β} {transport : Transport β} {integrity : RestoreIntegrity}
  {sources targets files : Files β} {slots : List Slot} {slot : Slot}

/-- The file is still to copy, or is proven. -/
def Slot.Live (slot : Slot) : Prop := slot.pending = true ∨ slot.outcome.verdict.proven = true

def Slot.Admitted (hashing : Hashing β) (integrity : RestoreIntegrity) (sources : Files β) (slot : Slot) : Prop :=
  ∃ source, sources slot.item.sourcePath = some source ∧
    slot.outcome.checksumSourceBeforeCopy = some (hashing.digest source) ∧
    (∀ size ∈ slot.outcome.sizeSourceBytes, size = hashing.length source) ∧
    (integrity.verifySourceBeforeCopy = true → ∀ recorded ∈ slot.item.checksumAfterBackup,
      hashing.digest source = recorded)

/-- A slot after a number of rounds. -/
structure Slot.Kept (hashing : Hashing β) (integrity : RestoreIntegrity) (sources : Files β) (done : Nat)
    (slot : Slot) : Prop where
  numbered : slot.outcome.attempts.map Attempt.attemptNo = List.range' 1 slot.outcome.attempts.length
  bounded : slot.outcome.attempts.length ≤ done
  only_last : ∀ attempt ∈ slot.outcome.attempts.dropLast, attempt.result ≠ .matched
  waiting : slot.pending = true → slot.outcome.attempts.length = done ∧
    (∀ attempt ∈ slot.outcome.attempts, attempt.result ≠ .matched) ∧ slot.outcome.verdict.proven = false
  admitted : slot.Live → slot.Admitted hashing integrity sources

def Slot.Held (hashing : Hashing β) (files : Files β) (slot : Slot) : Prop :=
  slot.outcome.verdict.proven = true →
    ∃ target, files slot.item.targetPath = some target ∧
      slot.outcome.checksumSourceBeforeCopy = some (hashing.digest target) ∧
      ∀ size ∈ slot.outcome.sizeSourceBytes, ∀ found ∈ slot.outcome.sizeTargetBytes,
        found = hashing.length target ∧ size = found

/-- Two live slots have two targets. -/
def Apart (slots : List Slot) : Prop :=
  slots.Pairwise fun slot other => slot.Live → other.Live → slot.item.targetPath ≠ other.item.targetPath

theorem admit_item (index : Nat) (item : FileToCopy) (found : Option Found) :
    (admitItem integrity index item found).item = item := by
  unfold admitItem
  cases found with
  | none => rfl
  | some found =>
    cases item.checksumAfterBackup with
    | none => dsimp only; split <;> rfl
    | some recorded => dsimp only; split <;> rfl

theorem kept_of_no_attempt (none_yet : slot.outcome.attempts = []) (unproven : slot.outcome.verdict.proven = false)
    (admitted : slot.pending = true → slot.Admitted hashing integrity sources) :
    slot.Kept hashing integrity sources 0 where
  numbered := by simp [none_yet]
  bounded := by simp [none_yet]
  only_last := by simp [none_yet]
  waiting := fun _ => ⟨by simp [none_yet], by simp [none_yet], unproven⟩
  admitted := by
    rintro (pending | proven)
    · exact admitted pending
    · rw [unproven] at proven
      cases proven

theorem admit_spec (hashing : Hashing β) (transport : Transport β) (integrity : RestoreIntegrity) (sources : Files β)
    (index : Nat) (item : FileToCopy) :
    let slot := admitItem integrity index item (hashAt hashing transport 0 sources item.sourcePath)
    slot.outcome.attempts = [] ∧ slot.outcome.verdict.proven = false ∧
      (slot.pending = true → slot.Admitted hashing integrity sources) := by
  unfold admitItem hashAt
  cases there : sources item.sourcePath with
  | none => exact ⟨rfl, rfl, fun pending => by cases pending⟩
  | some source =>
    have size_read : ∀ size ∈ (if transport.sizeRead 0 item.sourcePath then some (hashing.length source) else none),
        size = hashing.length source := by
      intro size member
      split at member
      · exact (Option.some.inj member).symm
      · cases member
    simp only [Option.map_some]
    cases catalogued : item.checksumAfterBackup with
    | none =>
      dsimp only
      split
      · exact ⟨rfl, rfl, fun pending => by cases pending⟩
      · refine ⟨rfl, rfl, fun _ => ⟨source, there, rfl, size_read, fun _ recorded member => ?_⟩⟩
        rw [catalogued] at member
        cases member
    | some recorded =>
      dsimp only
      split
      · exact ⟨rfl, rfl, fun pending => by cases pending⟩
      · rename_i agrees
        refine ⟨rfl, rfl, fun _ => ⟨source, there, rfl, size_read, fun verify recorded' member => ?_⟩⟩
        rw [catalogued] at member
        obtain rfl := Option.some.inj member
        exact not_not.mp fun differ => agrees ⟨verify, differ⟩

variable {path : String} {attemptNo : Nat} {found : Option Found} {index total : Nat}

/-- What a hasher found equal to a source's hash is there with that hash. -/
theorem target_of_sameBytes {call : Nat} {source : β} {size : Option Nat}
    (same : sameBytes (hashAt hashing transport call files path) (some (hashing.digest source)) size = true) :
    ∃ target, files path = some target ∧ hashing.digest target = hashing.digest source ∧
      ∀ expected ∈ size, ∀ found ∈ (hashAt hashing transport call files path).bind Prod.snd,
        found = hashing.length target ∧ expected = found := by
  cases there : files path with
  | none => simp [hashAt, there, sameBytes] at same
  | some target =>
    simp only [hashAt, there, Option.map_some, sameBytes, hashing.lower_digest, ne_eq] at same
    split at same
    · cases same
    · rename_i agrees
      simp only [not_or, Decidable.not_not] at agrees
      refine ⟨target, rfl, agrees.2.2, fun expected is_expected found is_found => ?_⟩
      have found_size : (if transport.sizeRead call path then some (hashing.length target) else none) = some found := by
        simpa [hashAt, there] using is_found
      rw [Option.mem_def] at is_expected
      rw [found_size, is_expected] at same
      have equal : expected = found := by simpa [eq_comm] using same
      split at found_size
      · exact ⟨(Option.some.inj found_size).symm, equal⟩
      · cases found_size

theorem attemptOf_matched {answer : Except String (Option Nat)}
    (matched : (attemptOf attemptNo slot answer found).result = .matched) :
    sameBytes found slot.outcome.checksumSourceBeforeCopy slot.outcome.sizeSourceBytes = true ∧
      (attemptOf attemptNo slot answer found).sizeTargetAfterCopy = found.bind Prod.snd := by
  unfold attemptOf at matched ⊢
  cases answer with
  | error text => cases matched
  | ok bytes =>
    cases found with
    | none => cases matched
    | some found =>
      dsimp only at matched ⊢
      split at matched
      · rename_i same
        rw [if_pos same]
        exact ⟨same, rfl⟩
      · cases matched

@[simp]
theorem attemptOf_attemptNo (attemptNo : Nat) (slot : Slot) (answer : Except String (Option Nat)) (found : Option Found) :
    (attemptOf attemptNo slot answer found).attemptNo = attemptNo := by
  unfold attemptOf
  cases answer with
  | error text => rfl
  | ok bytes =>
    cases found with
    | none => rfl
    | some found => dsimp only; split <;> rfl

@[simp]
theorem judge_item (slot : Slot) (attempt : Attempt) : (slot.judge attempt).item = slot.item := by
  unfold Slot.judge
  split <;> rfl

@[simp]
theorem compareBefore_item (slot : Slot) (found : Option Found) : (slot.compareBefore found).item = slot.item := by
  unfold Slot.compareBefore
  split
  · split <;> rfl
  · rfl

@[simp]
theorem giveUp_item (total : Nat) (slot : Slot) : (slot.giveUp total).item = slot.item := by
  unfold Slot.giveUp
  split <;> rfl

theorem judge_of_not_pending (attempt : Attempt) (settled : slot.pending = false) : slot.judge attempt = slot := by
  simp [Slot.judge, settled]

theorem live_of_judge {attempt : Attempt} (live : (slot.judge attempt).Live) : slot.Live := by
  cases waits : slot.pending with
  | true => exact Or.inl waits
  | false =>
    rw [judge_of_not_pending attempt waits] at live
    exact live

/-- A slot keeps its record through a round. -/
theorem Slot.Kept.judge (kept : slot.Kept hashing integrity sources done) (attempt : Attempt)
    (number : attempt.attemptNo = done + 1) : (slot.judge attempt).Kept hashing integrity sources (done + 1) := by
  cases waits : slot.pending with
  | false =>
    rw [judge_of_not_pending attempt waits]
    exact { kept with
      bounded := kept.bounded.trans (Nat.le_succ done)
      waiting := fun pending => absurd (waits.symm.trans pending) Bool.false_ne_true }
  | true =>
    obtain ⟨length, unmatched, unproven⟩ := kept.waiting waits
    have admitted := kept.admitted (Or.inl waits)
    rw [Slot.judge, if_pos waits]
    refine ⟨?_, ?_, ?_, ?_, fun _ => admitted⟩
    · simp [kept.numbered, List.range'_concat, number, length, Nat.add_comm]
    · simp [length]
    · simpa using unmatched
    · intro pending
      have missed : attempt.result ≠ .matched := by simpa using pending
      refine ⟨by simp [length], ?_, by simp [missed, unproven]⟩
      intro other member
      rcases List.mem_append.mp member with earlier | last
      · exact unmatched other earlier
      · rw [List.mem_singleton.mp last]
        exact missed

theorem compareBefore_of_not_pending (found : Option Found) (settled : slot.pending = false) :
    slot.compareBefore found = slot := by
  simp [Slot.compareBefore, settled]

theorem live_of_compareBefore (live : (slot.compareBefore found).Live) : slot.Live := by
  cases waits : slot.pending with
  | true => exact Or.inl waits
  | false =>
    rw [compareBefore_of_not_pending found waits] at live
    exact live

/-- Before the copies a slot keeps its record, and is proven only by what its target holds. -/
theorem compareBefore_spec (kept : slot.Kept hashing integrity sources 0)
    (unproven : slot.outcome.verdict.proven = false) :
    let compared := slot.compareBefore (hashAt hashing transport 1 targets slot.item.targetPath)
    compared.Kept hashing integrity sources 0 ∧ compared.Held hashing targets := by
  cases waits : slot.pending with
  | false =>
    rw [compareBefore_of_not_pending _ waits]
    exact ⟨kept, fun proven => absurd (unproven.symm.trans proven) Bool.false_ne_true⟩
  | true =>
    obtain ⟨source, there, hashed, sized, recorded⟩ := kept.admitted (Or.inl waits)
    unfold Slot.compareBefore
    rw [if_pos waits]
    dsimp only
    split
    · rename_i same
      rw [hashed] at same
      obtain ⟨target, holds, equal, sizes⟩ := target_of_sameBytes same
      refine ⟨⟨kept.numbered, kept.bounded, kept.only_last, fun pending => ?_,
        fun _ => ⟨source, there, hashed, sized, recorded⟩⟩, fun _ => ⟨target, holds, ?_, sizes⟩⟩
      · cases pending
      · rw [equal]
        exact hashed
    · refine ⟨⟨kept.numbered, kept.bounded, kept.only_last, kept.waiting,
        fun _ => ⟨source, there, hashed, sized, recorded⟩⟩, fun proven => ?_⟩
      rw [unproven] at proven
      cases proven

/-- A path no pending slot names is left as it is by a round's copies. -/
theorem copyAll_of_no_target (elsewhere : ∀ slot ∈ slots, slot.pending = true → slot.item.targetPath ≠ path) :
    copyAll transport attemptNo slots files path = files path := by
  induction slots generalizing files with
  | nil => rfl
  | cons slot rest ih =>
    rw [copyAll, ih fun other member => elsewhere other (List.mem_cons_of_mem _ member)]
    cases waits : slot.pending with
    | false => simp
    | true => simp [Function.update_of_ne (elsewhere slot List.mem_cons_self waits).symm]

/-- What a proven slot was proven by is still there after a round that copies over no proven target. -/
theorem Slot.Held.judge {attemptNo : Nat} (kept : slot.Kept hashing integrity sources done)
    (held : slot.Held hashing files) (apart : Apart slots) (member : slot ∈ slots) :
    let after := copyAll transport attemptNo slots files
    (slot.judge (attemptOf attemptNo slot (transport.copies attemptNo slot.index).answer
      (hashAt hashing transport (attemptNo + 1) after slot.item.targetPath))).Held hashing after := by
  intro after
  cases waits : slot.pending with
  | false =>
    rw [judge_of_not_pending _ waits]
    intro proven
    obtain ⟨target, holds, hashed, sizes⟩ := held proven
    refine ⟨target, ?_, hashed, sizes⟩
    have elsewhere : ∀ other ∈ slots, other.pending = true → other.item.targetPath ≠ slot.item.targetPath := by
      intro other among pending
      have differ : other ≠ slot := by
        rintro rfl
        exact Bool.false_ne_true (waits.symm.trans pending)
      have : Std.Symm fun slot other : Slot =>
          slot.Live → other.Live → slot.item.targetPath ≠ other.item.targetPath :=
        ⟨fun _ _ away live other_live => (away other_live live).symm⟩
      exact List.Pairwise.forall apart among member differ (Or.inl pending) (Or.inr proven)
    exact (copyAll_of_no_target elsewhere).trans holds
  | true =>
    obtain ⟨source, -, hashed, -, -⟩ := kept.admitted (Or.inl waits)
    obtain ⟨-, -, unproven⟩ := kept.waiting waits
    intro proven
    unfold Slot.judge at proven ⊢
    rw [if_pos waits] at proven ⊢
    dsimp only at proven ⊢
    by_cases matched : (attemptOf attemptNo slot (transport.copies attemptNo slot.index).answer
      (hashAt hashing transport (attemptNo + 1) after slot.item.targetPath)).result = .matched
    · obtain ⟨same, size⟩ := attemptOf_matched matched
      rw [hashed] at same
      obtain ⟨target, holds, equal, sizes⟩ := target_of_sameBytes same
      rw [size]
      exact ⟨target, holds, by rw [equal]; exact hashed, sizes⟩
    · rw [if_neg matched, unproven] at proven
      cases proven

/-- A map that keeps every target and makes no slot live keeps them apart. -/
theorem Apart.map {change : Slot → Slot} (apart : Apart slots) (same : ∀ slot, (change slot).item = slot.item)
    (live : ∀ slot, (change slot).Live → slot.Live) : Apart (slots.map change) := by
  rw [Apart, List.pairwise_map]
  refine apart.imp fun away live_slot live_other => ?_
  rw [same, same]
  exact away (live _ live_slot) (live _ live_other)

/-- The slots after a number of rounds, with what the target holds where the batch is tidy. -/
structure Standing (hashing : Hashing β) (integrity : RestoreIntegrity) (sources : Files β) (tidy : Prop)
    (items : List FileToCopy) (done : Nat) (slots : List Slot) (files : Files β) : Prop where
  items_eq : slots.map Slot.item = items
  kept : ∀ slot ∈ slots, slot.Kept hashing integrity sources done
  apart : tidy → Apart slots
  held : tidy → ∀ slot ∈ slots, slot.Held hashing files

variable {tidy : Prop} {items : List FileToCopy} {done : Nat}

/-- One round. -/
theorem Standing.judgeAll (standing : Standing hashing integrity sources tidy items done slots files) :
    Standing hashing integrity sources tidy items (done + 1)
      (judgeAll hashing transport (done + 1) (copyAll transport (done + 1) slots files) slots)
      (copyAll transport (done + 1) slots files) where
  items_eq := by
    rw [← standing.items_eq, CopyGate.judgeAll, List.map_map]
    exact List.map_congr_left fun slot _ => judge_item slot _
  kept := by
    intro judged member
    obtain ⟨slot, among, rfl⟩ := List.mem_map.mp member
    exact (standing.kept slot among).judge _ (attemptOf_attemptNo _ _ _ _)
  apart := fun is_tidy => (standing.apart is_tidy).map (fun slot => judge_item slot _) fun _ => live_of_judge
  held := by
    intro is_tidy judged member
    obtain ⟨slot, among, rfl⟩ := List.mem_map.mp member
    exact Slot.Held.judge (standing.kept slot among) (standing.held is_tidy slot among) (standing.apart is_tidy) among

theorem Standing.mono {later : Nat} (standing : Standing hashing integrity sources tidy items done slots files)
    (nothing : slots.any Slot.pending = false) (le : done ≤ later) :
    Standing hashing integrity sources tidy items later slots files where
  items_eq := standing.items_eq
  kept := by
    intro slot member
    have settled : slot.pending = false := by
      simpa using List.any_eq_false.mp nothing slot member
    exact { standing.kept slot member with
      bounded := (standing.kept slot member).bounded.trans le
      waiting := fun pending => absurd (settled.symm.trans pending) Bool.false_ne_true }
  apart := standing.apart
  held := standing.held

/-- All the rounds. -/
theorem Standing.rounds {left : Nat} {final : List Slot} {after : Files β}
    (standing : Standing hashing integrity sources tidy items done slots files)
    (ran : rounds hashing transport left (done + 1) slots files = .ok (final, after)) :
    Standing hashing integrity sources tidy items (done + left) final after := by
  induction left generalizing done slots files with
  | zero =>
    simp only [CopyGate.rounds, Except.ok.injEq, Prod.mk.injEq] at ran
    obtain ⟨rfl, rfl⟩ := ran
    exact standing
  | succ left ih =>
    unfold CopyGate.rounds at ran
    split at ran
    · split at ran
      · cases ran
      · have later := ih standing.judgeAll ran
        rwa [Nat.add_right_comm] at later
    · rename_i nothing
      simp only [Except.ok.injEq, Prod.mk.injEq] at ran
      obtain ⟨rfl, rfl⟩ := ran
      exact standing.mono (Bool.not_eq_true _ ▸ nothing) (Nat.le_add_right done (left + 1))

theorem mem_admitAll (member : slot ∈ admitAll hashing transport integrity sources index items) :
    ∃ place, ∃ item ∈ items,
      slot = admitItem integrity place item (hashAt hashing transport 0 sources item.sourcePath) := by
  induction items generalizing index with
  | nil => cases member
  | cons item rest ih =>
    rcases List.mem_cons.mp member with rfl | later
    · exact ⟨index, item, List.mem_cons_self, rfl⟩
    · obtain ⟨place, other, among, rfl⟩ := ih later
      exact ⟨place, other, List.mem_cons_of_mem _ among, rfl⟩

theorem admitAll_items (index : Nat) :
    (admitAll hashing transport integrity sources index items).map Slot.item = items := by
  induction items generalizing index with
  | nil => rfl
  | cons item rest ih => rw [admitAll, List.map_cons, admit_item, ih]

theorem there_of_live {item : FileToCopy}
    (live : (admitItem integrity index item (hashAt hashing transport 0 sources item.sourcePath)).Live) :
    sources item.sourcePath ≠ none := by
  obtain ⟨-, unproven, admitted⟩ := admit_spec hashing transport integrity sources index item
  rcases live with pending | proven
  · obtain ⟨source, there, -⟩ := admitted pending
    rw [admit_item] at there
    simp [there]
  · exact absurd (unproven.symm.trans proven) Bool.false_ne_true

theorem apart_admitAll (tidy : OneTargetEach sources items) (index : Nat) :
    Apart (admitAll hashing transport integrity sources index items) := by
  induction items generalizing index with
  | nil => exact List.Pairwise.nil
  | cons item rest ih =>
    obtain ⟨away, later⟩ := List.pairwise_cons.mp tidy
    refine List.pairwise_cons.mpr ⟨?_, ih later (index + 1)⟩
    intro other member live other_live
    obtain ⟨place, other, among, rfl⟩ := mem_admitAll member
    rw [admit_item, admit_item]
    exact away other among (there_of_live live) (there_of_live other_live)

/-- The batch before its first round. -/
theorem standing_start : Standing hashing integrity sources (OneTargetEach sources items) items 0
    (compareAll hashing transport targets (admitAll hashing transport integrity sources 0 items)) targets := by
  have compared : ∀ slot ∈ compareAll hashing transport targets (admitAll hashing transport integrity sources 0 items),
      slot.Kept hashing integrity sources 0 ∧ slot.Held hashing targets := by
    intro slot member
    obtain ⟨admitted, among, rfl⟩ := List.mem_map.mp member
    obtain ⟨place, item, -, rfl⟩ := mem_admitAll among
    obtain ⟨none_yet, unproven, source⟩ := admit_spec hashing transport integrity sources place item
    exact compareBefore_spec (kept_of_no_attempt none_yet unproven source) unproven
  refine ⟨?_, fun slot member => (compared slot member).1, fun tidy => ?_, fun _ slot member => (compared slot member).2⟩
  · rw [compareAll, List.map_map]
    exact (List.map_congr_left fun slot _ => compareBefore_item slot _).trans (admitAll_items 0)
  · exact (apart_admitAll tidy 0).map (fun slot => compareBefore_item slot _) fun _ => live_of_compareBefore

theorem giveUp_right (kept : slot.Kept hashing integrity sources (integrity.copyMaxRetry + 1))
    (held : slot.Held hashing files) :
    RightFile hashing integrity sources files (slot.giveUp total).item (slot.giveUp total).outcome := by
  rw [giveUp_item]
  unfold Slot.giveUp
  cases waits : slot.pending with
  | true =>
    intro proven
    cases proven
  | false =>
    intro proven
    obtain ⟨source, there, hashed, sized, recorded⟩ := kept.admitted (Or.inr proven)
    obtain ⟨target, holds, equal, sizes⟩ := held proven
    have same : hashing.digest source = hashing.digest target := Option.some.inj (hashed.symm.trans equal)
    refine ⟨source, target, there, holds, same.symm, fun verify expected member => ?_, fun read found_read => ?_⟩
    · rw [← same]
      exact recorded verify expected member
    · obtain ⟨size, is_size⟩ := Option.ne_none_iff_exists'.mp read
      obtain ⟨found, is_found⟩ := Option.ne_none_iff_exists'.mp found_read
      obtain ⟨measured, agrees⟩ := sizes size is_size found is_found
      rw [← measured, ← agrees]
      exact sized size is_size

theorem giveUp_attempts (kept : slot.Kept hashing integrity sources (integrity.copyMaxRetry + 1)) :
    AttemptsInOrder integrity (slot.giveUp total).outcome := by
  have same : (slot.giveUp total).outcome.attempts = slot.outcome.attempts := by
    unfold Slot.giveUp
    split <;> rfl
  refine ⟨?_, ?_, ?_⟩
  · rw [same]
    exact kept.numbered
  · rw [same]
    exact kept.bounded
  · rw [same]
    exact kept.only_last

/-- What a run that returns comes from. -/
theorem copyVerifiedBatch_of_ok {outcomes : List FileOutcome}
    (ran : copyVerifiedBatch hashing transport (some integrity) sources targets items = .ok (outcomes, files)) :
    ∃ final, rounds hashing transport (integrity.copyMaxRetry + 1) 1
        (compareAll hashing transport targets (admitAll hashing transport integrity sources 0 items)) targets =
          .ok (final, files) ∧
      outcomes = final.map fun slot => (slot.giveUp (integrity.copyMaxRetry + 1)).outcome := by
  unfold copyVerifiedBatch settle at ran
  cases asked : reached transport 0 true with
  | error text => simp [asked, bind, Except.bind, Except.map] at ran
  | ok _ =>
    cases held : reached transport 1 ((admitAll hashing transport integrity sources 0 items).any Slot.pending) with
    | error text => simp [asked, held, bind, Except.bind, Except.map] at ran
    | ok _ =>
      cases went : rounds hashing transport (integrity.copyMaxRetry + 1) 1
          (compareAll hashing transport targets (admitAll hashing transport integrity sources 0 items)) targets with
      | error text => simp [asked, held, went, bind, Except.bind, Except.map] at ran
      | ok result =>
        obtain ⟨final, after⟩ := result
        simp only [asked, held, went, bind, Except.bind, pure, Except.pure, Except.map, Except.ok.injEq,
          Prod.mk.injEq, List.map_map] at ran
        obtain ⟨rfl, rfl⟩ := ran
        exact ⟨final, rfl, rfl⟩

/-- Where every file that is there has its own target, the gate proves right files. -/
theorem provesRightFiles_of_oneTargetEach (tidy : OneTargetEach sources items) :
    ProvesRightFiles hashing sources items := by
  intro integrity transport targets outcomes files ran
  obtain ⟨final, went, rfl⟩ := copyVerifiedBatch_of_ok ran
  have standing := standing_start.rounds went
  rw [Nat.zero_add] at standing
  rw [← standing.items_eq, List.forall₂_map_left_iff, List.forall₂_map_right_iff, List.forall₂_same]
  intro slot member
  have kept := standing.kept slot member
  have right : RightFile hashing integrity sources files (slot.giveUp (integrity.copyMaxRetry + 1)).item
      (slot.giveUp (integrity.copyMaxRetry + 1)).outcome := giveUp_right kept (standing.held tidy slot member)
  rw [giveUp_item] at right
  exact ⟨right, giveUp_attempts kept⟩

end Kept

/-! ## Two files, one target -/

section Shared

variable {β : Type} {hashing : Hashing β} {transport : Transport β} {sources files : Files β} {slots : List Slot}
  {items : List FileToCopy} {path : String} {content : Option β}

/-- The copy arrives in the first round for one file, and in the second another file's takes it away. -/
def twoRounds (first second : Nat) (arrives : β) : Transport β where
  unreachable := fun _ => none
  sizeRead := fun _ _ => true
  copies := fun attemptNo index =>
    if attemptNo = 1 ∧ index = first then ⟨fun _ => some arrives, .ok none⟩
    else if attemptNo = 2 ∧ index = second then ⟨fun _ => none, .error "OSError: no space left on device"⟩
    else ⟨id, .error "OSError: network unreachable"⟩

def retryOnce : RestoreIntegrity := ⟨1, false, .compareCopy⟩

variable {attemptNo place : Nat} {source : β}

/-- What every copy of a round leaves as it is, the round leaves as it is. -/
theorem copyAll_keeps (fixed : ∀ slot ∈ slots, (transport.copies attemptNo slot.index).leaves content = content)
    (there : files path = content) : copyAll transport attemptNo slots files path = content := by
  induction slots generalizing files with
  | nil => exact there
  | cons slot rest ih =>
    rw [copyAll]
    refine ih (fun other member => fixed other (List.mem_cons_of_mem _ member)) ?_
    split
    · by_cases same : path = slot.item.targetPath
      · rw [same, Function.update_self, ← same, there]
        exact fixed slot List.mem_cons_self
      · rw [Function.update_of_ne same, there]
    · exact there

theorem copyAll_reaches {slot : Slot} (member : slot ∈ slots) (pending : slot.pending = true)
    (target : slot.item.targetPath = path)
    (writes : ∀ before, (transport.copies attemptNo slot.index).leaves before = content)
    (fixed : ∀ other ∈ slots, (transport.copies attemptNo other.index).leaves content = content) :
    copyAll transport attemptNo slots files path = content := by
  induction slots generalizing files with
  | nil => cases member
  | cons head rest ih =>
    have later_fixed : ∀ other ∈ rest, (transport.copies attemptNo other.index).leaves content = content :=
      fun other among => fixed other (List.mem_cons_of_mem head among)
    rw [copyAll]
    rcases List.mem_cons.mp member with rfl | later
    · refine copyAll_keeps later_fixed ?_
      rw [if_pos pending, target, Function.update_self, writes]
    · exact ih later later_fixed

theorem admit_mem {integrity : RestoreIntegrity} {start : Nat} (named : items[place]? = some item) :
    admitItem integrity (start + place) item (hashAt hashing transport 0 sources item.sourcePath) ∈
      admitAll hashing transport integrity sources start items := by
  induction items generalizing start place with
  | nil => cases named
  | cons head rest ih =>
    cases place with
    | zero =>
      obtain rfl := Option.some.inj named
      exact List.mem_cons_self
    | succ place =>
      rw [show start + (place + 1) = start + 1 + place by omega]
      exact List.mem_cons_of_mem _ (ih named)

/-- A file that is there, before the rounds of a run that trusts every source and finds an empty target. -/
def waitingSlot (hashing : Hashing β) (index : Nat) (item : FileToCopy) (source : β) : Slot :=
  ⟨index, item, { newOutcome with
    checksumSourceBeforeCopy := some (hashing.digest source)
    sizeSourceBytes := some (hashing.length source) }, true⟩

variable {first second : Nat} {item other : FileToCopy} {arrives there : β}

theorem waitingSlot_mem (named : items[place]? = some item) (is_there : sources item.sourcePath = some source) :
    waitingSlot hashing place item source ∈ compareAll hashing (twoRounds first second arrives) (fun _ => none)
      (admitAll hashing (twoRounds first second arrives) retryOnce sources 0 items) := by
  refine List.mem_map.mpr ⟨_, admit_mem named, ?_⟩
  rw [Nat.zero_add]
  unfold admitItem hashAt
  rw [is_there]
  cases item.checksumAfterBackup with
  | none => rfl
  | some recorded => rfl

theorem sameBytes_self (source : β) :
    sameBytes (some (hashing.digest source, some (hashing.length source))) (some (hashing.digest source))
      (some (hashing.length source)) = true := by
  simp [sameBytes, hashing.digest_ne_empty]

/-- Two files that are there and name one target: the first is proven, and its target is empty. -/
theorem not_provesRightFiles_of_shared (differ : first ≠ second) (named : items[first]? = some item)
    (other_named : items[second]? = some other) (is_there : sources item.sourcePath = some source)
    (other_there : sources other.sourcePath = some there) (shared : item.targetPath = other.targetPath) :
    ¬ ProvesRightFiles hashing sources items := by
  intro proves
  let transport := twoRounds first second source
  let slots := compareAll hashing transport (fun _ => none) (admitAll hashing transport retryOnce sources 0 items)
  let files := copyAll transport 1 slots fun _ => none
  let judged := judgeAll hashing transport 1 files slots
  let after := copyAll transport 2 judged files
  have slot_mem : waitingSlot hashing first item source ∈ slots := waitingSlot_mem named is_there
  have other_mem : waitingSlot hashing second other there ∈ slots := waitingSlot_mem other_named other_there
  -- the first round leaves the first file's bytes at the target
  have arrived : files item.targetPath = some source := by
    refine copyAll_reaches slot_mem rfl rfl (fun before => ?_) (fun slot _ => ?_)
    · simp [transport, twoRounds, waitingSlot]
    · simp only [transport, twoRounds]
      split
      · rfl
      · simp
  -- so it is proven, and the other file is still to copy
  have proven_mem : ∃ slot ∈ judged, slot.pending = false ∧ slot.outcome.verdict = .copied ∧ slot.item = item := by
    refine ⟨_, List.mem_map_of_mem slot_mem, ?_⟩
    have found : hashAt hashing transport 2 files item.targetPath =
        some (hashing.digest source, some (hashing.length source)) := by
      simp [hashAt, arrived, transport, twoRounds]
    have copied : (transport.copies 1 first).answer = .ok none := by
      simp [transport, twoRounds]
    simp only [waitingSlot, found, copied, attemptOf, Slot.judge, sameBytes_self, if_true]
    simp
  have pending_mem : ∃ slot ∈ judged, slot.pending = true ∧ slot.index = second ∧ slot.item = other := by
    refine ⟨_, List.mem_map_of_mem other_mem, ?_⟩
    have failed : (transport.copies 1 second).answer = .error "OSError: network unreachable" := by
      simp [transport, twoRounds, differ.symm]
    simp only [waitingSlot, failed, attemptOf, Slot.judge, if_true]
    simp
  obtain ⟨proven, proven_mem, settled, verdict, proven_item⟩ := proven_mem
  obtain ⟨pending, pending_mem, waits, at_second, pending_item⟩ := pending_mem
  -- the second round takes the other file's target away, and with it the first file's
  have gone : after item.targetPath = none := by
    refine copyAll_reaches pending_mem waits (by rw [pending_item, shared]) (fun before => ?_) (fun slot _ => ?_)
    · simp [transport, twoRounds, at_second]
    · simp only [transport, twoRounds]
      split
      · rename_i impossible
        cases impossible.1
      · split <;> rfl
  let final := judgeAll hashing transport 2 after judged
  have went : rounds hashing transport 2 1 slots (fun _ => none) = .ok (final, after) := by
    have asked : slots.any Slot.pending = true := List.any_eq_true.mpr ⟨_, slot_mem, rfl⟩
    have asked_again : judged.any Slot.pending = true := List.any_eq_true.mpr ⟨_, pending_mem, waits⟩
    rw [rounds, if_pos asked]
    change rounds hashing transport 1 2 judged files = _
    rw [rounds, if_pos asked_again]
    rfl
  have ran : copyVerifiedBatch hashing transport (some retryOnce) sources (fun _ => none) items =
      .ok ((final.map (Slot.giveUp 2)).map Slot.outcome, after) := by
    unfold copyVerifiedBatch settle
    change ((rounds hashing transport 2 1 slots fun _ => none).bind _).map _ = _
    rw [went]
    rfl
  have final_mem : proven ∈ final := by
    rw [← judge_of_not_pending (attemptOf 2 proven (transport.copies 2 proven.index).answer
      (hashAt hashing transport 3 after proven.item.targetPath)) settled]
    exact List.mem_map_of_mem proven_mem
  have right := proves _ _ _ _ _ ran
  rw [← (standing_start.rounds went).items_eq, List.map_map, List.forall₂_map_left_iff, List.forall₂_map_right_iff,
    List.forall₂_same] at right
  have kept : proven.giveUp 2 = proven := by simp [Slot.giveUp, settled]
  have held := (right proven final_mem).1
  rw [Function.comp_apply, kept] at held
  obtain ⟨-, target, -, holds, -⟩ := held (by rw [verdict]; rfl)
  rw [proven_item, gone] at holds
  cases holds

end Shared

/-! ## When a proven file is the right file -/

variable {β : Type}

/-- The gate proves right files, under every policy and whatever the copies do, exactly when no two
files that are there name one target. -/
theorem provesRightFiles_iff (hashing : Hashing β) (sources : Files β) (items : List FileToCopy) :
    ProvesRightFiles hashing sources items ↔ OneTargetEach sources items := by
  refine ⟨fun proves => ?_, provesRightFiles_of_oneTargetEach⟩
  refine List.pairwise_iff_getElem.mpr fun first second first_lt second_lt less there other_there shared => ?_
  obtain ⟨source, is_there⟩ := Option.ne_none_iff_exists'.mp there
  obtain ⟨other, other_is⟩ := Option.ne_none_iff_exists'.mp other_there
  exact not_provesRightFiles_of_shared less.ne (List.getElem?_eq_getElem first_lt) (List.getElem?_eq_getElem second_lt)
    is_there other_is shared proves

def plainHashing : Hashing Bool where
  digest := fun content => if content then "5feceb66" else "6b86b273"
  length := fun _ => 1
  lower_digest := by decide
  digest_ne_empty := by decide

/-- A log archived in two folders outside the backup folder, both under its name on the repository. -/
def archived (folder : String) : FileToCopy where
  sourceServerId := "ora1"
  targetServerId := "vault"
  fileName := "arch_1.arc"
  sourcePath := folder ++ "/arch_1.arc"
  targetPath := "/vault/ora1/ARCHIVELOG/arch_1.arc"
  checksumAfterBackup := none

theorem two_archives_share_a_target :
    ¬ ProvesRightFiles plainHashing (fun path => if path = "/arch1/arch_1.arc" then some true else some false)
      [archived "/arch1", archived "/arch2"] :=
  not_provesRightFiles_of_shared Nat.zero_ne_one rfl rfl rfl rfl rfl

end DbaBrain.BackupRestore.CopyGate
