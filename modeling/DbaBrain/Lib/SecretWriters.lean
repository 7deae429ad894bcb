import DbaBrain.Foundation.Dict
import DbaBrain.Foundation.LockedWrites
import DbaBrain.Foundation.Text

/-!
# The writers of the encrypted secret store

Each reads the store, changes it and writes it whole.  All but the worker merge
hold the store's lock meanwhile.  A ciphertext is its passphrase and what it
decrypts to.
-/

namespace DbaBrain.Lib.SecretWriters

open DbaBrain.Foundation DbaBrain.Foundation.Execution DbaBrain.Foundation.LockedWrites

/-- What is at the store's path. -/
inductive Store
  | missing
  | encrypted (passphrase : String) (secrets : Dict String String)
  | plain (secrets : Dict String String)
  | unreadable

def Store.secret? (ref : String) : Store → Option String
  | .encrypted _ secrets | .plain secrets => secrets.get? ref
  | .missing | .unreadable => none

inductive Refusal
  | noKey
  | wrongKey
  | unreadable
  | emptyKey
  | emptyRef
  | emptySecret (ref : String)
  | holdsAnother (ref : String)
  | notOpened (cause : Refusal)
  | storesConflict (refs : List String)
  | plaintextConflict (refs : List String)

inductive Outcome
  | changed (written : Bool)
  | stored
  | encrypted (count : Nat)
  | unchanged
  | would
  | merged

/-- A passphrase as it was given, and the environment's. -/
structure Key where
  explicit : String
  environment : String

/-- `resolve_key`. -/
def Key.resolved (key : Key) : String := if key.explicit ≠ "" then key.explicit else key.environment

def loadSecretTextFile (key : String) : Store → Except Refusal (Dict String String)
  | .missing => .ok .empty
  | .encrypted passphrase secrets =>
      if key = "" then .error .noKey else if key = passphrase then .ok secrets else .error .wrongKey
  | .plain secrets => .ok secrets
  | .unreadable => .error .unreadable

def encryptSecretText (secrets : Dict String String) (key : String) : Except Refusal Store :=
  if key = "" then .error .emptyKey else .ok (.encrypted key secrets)

def setSecretTextLocked (store : Store) (ref value : String) (key : Key) (overwrite : Bool) :
    Except Refusal (Outcome × Option Store) :=
  if Text.strip ref = "" then .error .emptyRef
  else if value = "" then .error (.emptySecret (Text.strip ref))
  else do
    let secrets ← loadSecretTextFile key.resolved store
    let existing := secrets.get? (Text.strip ref)
    if existing = some value then .ok (.changed false, none)
    else if existing.isSome = true ∧ overwrite = false then .error (.holdsAnother (Text.strip ref))
    else
      let blob ← encryptSecretText (secrets.set (Text.strip ref) value) key.resolved
      .ok (.changed true, some blob)

def storeSecret (store : Store) (ref value : String) (key : Key) : Except Refusal (Outcome × Option Store) := do
  let existing ← (loadSecretTextFile key.resolved store).mapError .notOpened
  let blob ← encryptSecretText (existing.set ref value) key.explicit
  .ok (.stored, some blob)

def encryptSecretTextFile (source : Dict String String) (key : String) : Except Refusal (Outcome × Option Store) := do
  let secrets := source.restrict fun name => !name.startsWith "_"
  let blob ← encryptSecretText secrets key
  .ok (.encrypted secrets.entries.length, some blob)

def sorted (refs : List String) : List String := refs.mergeSort fun ref other => decide (ref ≤ other)

/-- The refs that hold another value. -/
def conflicts (given held : Dict String String) : List String :=
  sorted ((given.entries.filter fun entry => (held.get? entry.1).any fun value => value ≠ entry.2).map Prod.fst)

def added (merged held : Dict String String) : List String :=
  sorted ((merged.entries.map Prod.fst).filter fun ref => (held.get? ref).isNone)

/-- `_merge_secret_stores_from_files`; the plaintext source is another file. -/
def mergeSecretStores (master node : Store) (plaintext : Option Store) (key : Key) (dryRun : Bool) :
    Except Refusal (Outcome × Option Store) := do
  let workerSecrets ← loadSecretTextFile key.resolved node
  let masterSecrets ← loadSecretTextFile key.resolved master
  let plaintextSecrets ← loadSecretTextFile key.resolved (plaintext.getD .missing)
  if conflicts workerSecrets masterSecrets ≠ [] then
    .error (.storesConflict (conflicts workerSecrets masterSecrets))
  else
    let encryptedMerged := masterSecrets.update workerSecrets.entries
    if conflicts encryptedMerged plaintextSecrets ≠ [] then
      .error (.plaintextConflict (conflicts encryptedMerged plaintextSecrets))
    else
      let merged := plaintextSecrets.update encryptedMerged.entries
      if added merged masterSecrets = [] ∧ (plaintext.isNone = true ∨ added merged plaintextSecrets = []) then
        .ok (.unchanged, none)
      else if dryRun then .ok (.would, none)
      else if added merged masterSecrets = [] then .ok (.merged, none)
      else
        let blob ← encryptSecretText merged key.resolved
        .ok (.merged, some blob)

inductive Call
  | setSecretText (ref value : String) (key : Key) (overwrite : Bool)
  | storeSecret (ref value : String) (key : Key)
  | encryptSecretTextFile (source : Dict String String) (key : String)
  | mergeSecretStores (node : Store) (plaintext : Option Store) (key : Key) (dryRun : Bool)

def perform (store : Store) : Call → Except Refusal (Outcome × Option Store)
  | .setSecretText ref value key overwrite => setSecretTextLocked store ref value key overwrite
  | .storeSecret ref value key => storeSecret store ref value key
  | .encryptSecretTextFile source key => encryptSecretTextFile source key
  | .mergeSecretStores node plaintext key dryRun => mergeSecretStores store node plaintext key dryRun

def calls : Calls Call Store (Except Refusal Outcome) where
  locks
    | .mergeSecretStores .. => false
    | _ => true
  answer call store := (perform store call).map Prod.fst
  write call store := (perform store call).toOption.bind Prod.snd

/-- An answer to the call says that the store holds the secret. -/
def Call.Stores (ref value : String) : Call → Prop
  | .setSecretText other given _ _ => Text.strip other = ref ∧ given = value
  | .storeSecret other given _ => other = ref ∧ given = value
  | .encryptSecretTextFile source _ => ref.startsWith "_" = false ∧ source.get? ref = some value
  | .mergeSecretStores node _ _ dryRun => node.secret? ref = some value ∧ dryRun = false

/-- The call does not ask for another value. -/
def Call.Keeps (ref value : String) : Call → Prop
  | .setSecretText other given _ overwrite => Text.strip other = ref → overwrite = true → given = value
  | .storeSecret other given _ => other = ref → given = value
  | .encryptSecretTextFile source _ => ref.startsWith "_" = false ∧ source.get? ref = some value
  | .mergeSecretStores .. => True

section Calls

variable {ref value key : String} {store after : Store} {secrets given held : Dict String String} {call : Call}
  {outcome : Outcome} {written : Option Store}

theorem get?_of_load (loaded : loadSecretTextFile key store = .ok secrets) : secrets.get? ref = store.secret? ref := by
  cases store with
  | missing => cases loaded; rfl
  | encrypted passphrase held =>
    simp only [loadSecretTextFile] at loaded
    split at loaded
    · cases loaded
    · split at loaded
      · cases loaded; rfl
      · cases loaded
  | plain held => cases loaded; rfl
  | unreadable => cases loaded

theorem secret?_of_encrypt (blob : encryptSecretText secrets key = .ok after) :
    after.secret? ref = secrets.get? ref := by
  unfold encryptSecretText at blob
  split at blob
  · cases blob
  · cases blob; rfl

theorem eq_nil_of_sorted {refs : List String} (none : sorted refs = []) : refs = [] := by
  have same := List.mergeSort_perm refs fun ref other => decide (ref ≤ other)
  rw [← sorted, none] at same
  exact same.symm.eq_nil

theorem eq_of_conflicts {other : String} (none : conflicts given held = []) (gives : given.get? ref = some value)
    (holds : held.get? ref = some other) : other = value := by
  have empty := List.map_eq_nil_iff.mp (eq_nil_of_sorted none)
  have same := List.filter_eq_nil_iff.mp empty (ref, value) (Dict.get?_eq_some_iff.mp gives)
  simpa [holds] using same

theorem isSome_of_added (none : added given held = []) (gives : given.get? ref = some value) :
    (held.get? ref).isSome = true := by
  have held_all := List.filter_eq_nil_iff.mp (eq_nil_of_sorted none) ref (Dict.mem_keys_iff.mpr (gives ▸ rfl))
  simpa [Option.isSome_iff_ne_none] using held_all

/-- A merge keeps what the master holds and, unless it only says what it would do, takes what the node holds. -/
theorem secret?_of_merge {master node : Store} {plaintext : Option Store} {given : Key} {dryRun : Bool}
    (ok : mergeSecretStores master node plaintext given dryRun = .ok (outcome, written))
    (holds : master.secret? ref = some value ∨ node.secret? ref = some value ∧ dryRun = false) :
    (written.getD master).secret? ref = some value := by
  unfold mergeSecretStores at ok
  obtain ⟨workers, ofNode, ok⟩ := bind_eq_ok ok
  obtain ⟨masters, ofMaster, ok⟩ := bind_eq_ok ok
  obtain ⟨plain, -, ok⟩ := bind_eq_ok ok
  rw [← get?_of_load ofMaster, ← get?_of_load ofNode] at holds
  split at ok
  · cases ok
  · rename_i agree
    dsimp only at ok
    have kept : ∀ other, masters.get? ref = some other → (masters.update workers.entries).get? ref = some other := by
      intro other holds
      rw [Dict.get?_update]
      cases gives : workers.get? ref with
      | none => exact holds
      | some own => rw [eq_of_conflicts (not_not.mp agree) gives holds]; rfl
    have both : (masters.update workers.entries).get? ref = some value := by
      rcases holds with held | ⟨gives, -⟩
      · exact kept value held
      · rw [Dict.get?_update, gives]; rfl
    have joined : (plain.update (masters.update workers.entries).entries).get? ref = some value := by
      rw [Dict.get?_update, both]
      rfl
    have there : added (plain.update (masters.update workers.entries).entries) masters = [] →
        master.secret? ref = some value := by
      intro none
      obtain ⟨other, held⟩ := Option.isSome_iff_exists.mp (isSome_of_added none joined)
      rw [← get?_of_load ofMaster, held, ← both, kept other held]
    split at ok
    · cases ok
    · split at ok
      · rename_i nothing
        cases ok
        exact there nothing.1
      · split at ok
        · rename_i only
          cases ok
          rcases holds with held | ⟨-, real⟩
          · exact (get?_of_load ofMaster).symm.trans held
          · exact absurd (only.symm.trans real) nofun
        · split at ok
          · rename_i nothing
            cases ok
            exact there nothing
          · obtain ⟨blob, encrypted, ok⟩ := bind_eq_ok ok
            cases ok
            exact (secret?_of_encrypt encrypted).trans joined

theorem secret?_of_perform (ok : perform store call = .ok (outcome, written))
    (holds : call.Stores ref value ∨ call.Keeps ref value ∧ store.secret? ref = some value) :
    (written.getD store).secret? ref = some value := by
  cases call with
  | setSecretText other given key overwrite =>
    simp only [perform, setSecretTextLocked] at ok
    split at ok
    · cases ok
    · split at ok
      · cases ok
      · obtain ⟨secrets, loaded, ok⟩ := bind_eq_ok ok
        have held := @get?_of_load ref _ _ _ loaded
        split at ok
        · rename_i same
          cases ok
          rcases holds with ⟨rfl, rfl⟩ | ⟨-, there⟩
          · exact held.symm.trans same
          · exact there
        · split at ok
          · cases ok
          · rename_i differs free
            obtain ⟨blob, encrypted, ok⟩ := bind_eq_ok ok
            cases ok
            refine (secret?_of_encrypt encrypted).trans ?_
            rw [Dict.get?_set]
            rcases holds with ⟨rfl, rfl⟩ | ⟨keeps, there⟩
            · exact if_pos rfl
            · split
              · rename_i own
                have present : (secrets.get? (Text.strip other)).isSome = true := by
                  rw [← own, held, there]
                  rfl
                have replaces : overwrite = true := by simpa [present] using free
                rw [keeps own.symm replaces]
              · exact held.trans there
  | storeSecret other given key =>
    simp only [perform, storeSecret] at ok
    obtain ⟨secrets, loaded, ok⟩ := bind_eq_ok ok
    obtain ⟨blob, encrypted, ok⟩ := bind_eq_ok ok
    cases ok
    refine (secret?_of_encrypt encrypted).trans ?_
    rw [Dict.get?_set]
    rcases holds with ⟨rfl, rfl⟩ | ⟨keeps, there⟩
    · exact if_pos rfl
    · split
      · rename_i own
        rw [keeps own.symm]
      · cases opened : loadSecretTextFile key.resolved store with
        | error cause => rw [opened] at loaded; cases loaded
        | ok found =>
          rw [opened] at loaded
          cases loaded
          exact (get?_of_load opened).trans there
  | encryptSecretTextFile source key =>
    simp only [perform, encryptSecretTextFile] at ok
    obtain ⟨blob, encrypted, ok⟩ := bind_eq_ok ok
    cases ok
    have given : ref.startsWith "_" = false ∧ source.get? ref = some value := holds.elim id And.left
    refine (secret?_of_encrypt encrypted).trans ?_
    rw [Dict.get?_restrict, if_pos (by simp [given.1])]
    exact given.2
  | mergeSecretStores node plaintext key dryRun =>
    exact secret?_of_merge ok (holds.symm.imp_left And.right)

theorem secret?_of_answer (answered : calls.answer call store = .ok outcome)
    (holds : call.Stores ref value ∨ call.Keeps ref value ∧ store.secret? ref = some value) :
    (calls.after call store).secret? ref = some value := by
  obtain ⟨⟨_, written⟩, ok, -⟩ := map_eq_ok answered
  have write : calls.write call store = written := congrArg (fun made => made.toOption.bind Prod.snd) ok
  rw [Calls.after, write]
  exact secret?_of_perform ok holds

theorem secret?_kept (keeps : call.Keeps ref value) (holds : store.secret? ref = some value) :
    (calls.after call store).secret? ref = some value := by
  cases ran : perform store call with
  | ok pair =>
    have answered : calls.answer call store = .ok pair.1 := congrArg (Except.map Prod.fst) ran
    exact secret?_of_answer answered (Or.inr ⟨keeps, holds⟩)
  | error refusal =>
    have write : calls.write call store = none := congrArg (fun made => made.toOption.bind Prod.snd) ran
    rw [Calls.after, write]
    exact holds

end Calls

/-- A secret that an answered call stored is in the store at the end of any run in which no call asks for another value
under its ref and every merge writes over what it read, with no locked call between its reading and its writing. -/
theorem answered_secret_is_kept {store : Store} {labels : List (Label Call)} {ref value : String}
    {final : State Call Store (Except Refusal Outcome)} {call : Call} {outcome : Outcome}
    (run : exec (step calls) (.start store) labels = some final)
    (undisturbed : Every (step calls) (Undisturbed calls (Call.Keeps ref value)) (.start store) labels)
    (stores : call.Stores ref value) (answered : (call, .ok outcome) ∈ final.answered) :
    final.file.secret? ref = some value := by
  obtain ⟨order, serial, all, -, among⟩ := ordered_exec run undisturbed
  have kept : ∀ call : Call, call.Keeps ref value → ∀ store : Store, store.secret? ref = some value →
      (calls.after call store).secret? ref = some value := fun _ keeps _ => secret?_kept keeps
  have stays := serial.stays all kept (among _ answered)
  exact stays fun store same => secret?_of_answer same (Or.inl stores)

def passphrase : Key := ⟨"k", ""⟩

def rotated : Call := .setSecretText " A " "new" passphrase true

def target : Call := .storeSecret "B" "other" passphrase

def merged : Call := .mergeSecretStores (.encrypted "k" (Dict.empty.set "C" "third")) none passphrase false

def regenerated : Call := .encryptSecretTextFile ((Dict.empty.set "A" "new").set "_note" "flat") "k"

/-- A rotation waits for a new target's password, another writer is killed, a worker's store is merged, and the store is
regenerated. -/
def together : List (Label Call) :=
  [.opened 0 rotated, .opened 1 target] ++ calls.remainder 1 target ++ calls.remainder 0 rotated ++
    [.opened 2 target, .locked 2, .reads 2, .killed 2, .opened 1 merged] ++ calls.remainder 1 merged ++
    .opened 3 regenerated :: calls.remainder 3 regenerated

theorem rotation_is_kept :
    ((exec (step calls) (.start .missing) together).map fun final => final.file.secret? "A") = some (some "new") := by
  have run : ∃ final, exec (step calls) (.start .missing) together = some final ∧
      (rotated, .ok (.changed true)) ∈ final.answered :=
    ⟨_, rfl, List.mem_append_left _ (List.mem_append_left _ (List.mem_append_right _ List.mem_cons_self))⟩
  have undisturbed : Every (step calls) (Undisturbed calls (Call.Keeps "A" "new")) (.start .missing) together := by
    have keeps : Call.Keeps "A" "new" rotated := fun _ _ => rfl
    have apart : Call.Keeps "A" "new" target := fun same => absurd same (by decide)
    have begun : NoneHeld calls (.start .missing) := by
      intro writer call seen held
      cases held
    have opened : NoneHeld calls (((State.start .missing).enter 0 (.waiting rotated)).enter 1 (.waiting target)) :=
      noneHeld_waiting (noneHeld_waiting begun)
    have emptied : NoneHeld calls (((((State.start .missing).enter 0 (.waiting rotated)).enter 1
        (.waiting target)).complete calls 1 target).complete calls 0 rotated) :=
      noneHeld_complete (noneHeld_complete opened)
    unfold together
    simp only [List.append_assoc, List.cons_append, List.nil_append]
    refine every_opened rfl keeps (every_opened rfl apart ?_)
    refine every_remainder rfl rfl opened (every_remainder rfl rfl (noneHeld_complete opened) ?_)
    refine every_killed rfl rfl apart rfl (every_opened rfl trivial ?_)
    refine every_remainder rfl rfl (noneHeld_waiting emptied) (every_opened rfl ⟨by simp, by decide⟩ ?_)
    rw [← List.append_nil (calls.remainder 3 regenerated)]
    exact every_remainder rfl rfl (noneHeld_waiting (noneHeld_complete (noneHeld_waiting emptied))) trivial
  have stores : Call.Stores "A" "new" rotated := ⟨by decide, rfl⟩
  obtain ⟨final, ran, answered⟩ := run
  rw [ran, Option.map_some, answered_secret_is_kept ran undisturbed stores answered]

end DbaBrain.Lib.SecretWriters
