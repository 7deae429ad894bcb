import DbaBrain.Foundation.Dict
import DbaBrain.Foundation.Double
import DbaBrain.Foundation.Execution

/-!
# The room a copy needs

The bytes still to write bound what a copy ever holds beyond what was there, in
every order it writes its files and whichever files it replaces.  The check then
asks for these bytes times a factor: it does so without fail unless the product of
the two, as a double, is a whole number below what it stands for.
-/

namespace DbaBrain.Lib.RestoreSpace

open DbaBrain.Foundation DbaBrain.Foundation.Double DbaBrain.Foundation.Execution

/-! ## The bytes to write -/

/-- The sums `remaining_bytes` keeps. -/
structure Tally where
  toWrite : ℕ
  stagedBytes : ℕ
  largestStaged : ℕ

section Remaining

variable (incoming staged : Dict String ℕ) (recopy : Bool)

/-- The target holds the file at its size. -/
def isStaged (entry : String × ℕ) : Bool := staged.get? entry.1 = some entry.2

def Tally.count (tally : Tally) (entry : String × ℕ) : Tally :=
  if isStaged staged entry then
    { tally with
      stagedBytes := tally.stagedBytes + entry.2
      largestStaged := max tally.largestStaged entry.2 }
  else { tally with toWrite := tally.toWrite + entry.2 }

def tallied : Tally := incoming.entries.foldl (Tally.count staged) ⟨0, 0, 0⟩

def remainingBytes : ℕ × ℕ :=
  let tally := tallied incoming staged
  (tally.toWrite + if recopy then tally.largestStaged else 0, tally.stagedBytes)

end Remaining

/-! ## The verdict -/

/-- Why `required_bytes` raises. -/
inductive Refusal
  | negative (incomingBytes : ℤ)
  | overflow

structure SpaceVerdict where
  ok : Bool
  incomingBytes : ℤ
  freeBytes : ℤ
  requiredBytes : ℤ
  factor : ℚ

/-- What no double reaches. -/
def limit : ℚ := 2 ^ 1024

/-- `incoming_bytes * factor`. -/
def product (incomingBytes : ℤ) (factor : ℚ) : ℚ := double (double incomingBytes * factor)

def requiredBytes (incomingBytes : ℤ) (factor : ℚ) : Except Refusal ℤ :=
  if incomingBytes < 0 then .error (.negative incomingBytes)
  else if limit ≤ double incomingBytes ∨ limit ≤ product incomingBytes factor then .error .overflow
  else
    let required := product incomingBytes factor
    let whole := ⌊required⌋
    .ok (if whole = required then whole else whole + 1)

def judge (incomingBytes freeBytes : ℤ) (factor : ℚ) : Except Refusal SpaceVerdict :=
  match requiredBytes incomingBytes factor with
  | .error refusal => .error refusal
  | .ok needed => .ok ⟨needed ≤ freeBytes, incomingBytes, freeBytes, needed, factor⟩

/-! ## The copy -/

/-- A target while files are copied onto it: what it holds, the files written so far, and the file in flight with the
bytes of it that are there, beside its final name. -/
structure Target where
  files : Dict String ℕ
  written : List String
  inFlight : Option (String × ℕ)

inductive Act
  | start (path : String)
  | write (bytes : ℕ)
  | move

def Target.before (staged : Dict String ℕ) : Target := ⟨staged, [], none⟩

def total (files : Dict String ℕ) : ℕ := (files.entries.map Prod.snd).sum

def Target.held (target : Target) : ℕ := total target.files + (target.inFlight.map Prod.snd).getD 0

section Copy

variable (incoming staged : Dict String ℕ) (recopy : Bool)

/-- A copy takes any file it has not written and leaves alone, unless forced, those staged at their size. -/
def step (target : Target) : Act → Option Target
  | .start path =>
      match incoming.get? path, target.inFlight with
      | some size, none =>
          if path ∉ target.written ∧ (recopy = true ∨ isStaged staged (path, size) = false) then
            some { target with inFlight := some (path, 0) }
          else none
      | _, _ => none
  | .write bytes =>
      match target.inFlight with
      | some (path, there) =>
          if (incoming.get? path).any fun size => there + bytes ≤ size then
            some { target with inFlight := some (path, there + bytes) }
          else none
      | none => none
  | .move =>
      match target.inFlight with
      | some (path, there) =>
          if incoming.get? path = some there then
            some ⟨target.files.set path there, path :: target.written, none⟩
          else none
      | none => none

end Copy

/-! ## Sums of sizes -/

section Sums

variable {keep : String × ℕ → Bool} {entries : List (String × ℕ)} {path : String} {size : ℕ}

/-- The sizes of the kept entries, together. -/
def weighed (keep : String × ℕ → Bool) (entries : List (String × ℕ)) : ℕ :=
  (entries.map fun entry => if keep entry then entry.2 else 0).sum

theorem weighed_cons (entry : String × ℕ) :
    weighed keep (entry :: entries) = (if keep entry then entry.2 else 0) + weighed keep entries := by
  rw [weighed, List.map_cons, List.sum_cons]
  rfl

variable {other : String × ℕ → Bool}

theorem weighed_congr (alike : ∀ entry ∈ entries, keep entry = other entry) :
    weighed keep entries = weighed other entries := by
  unfold weighed
  congr 1
  exact List.map_congr_left fun entry member => by rw [alike entry member]

theorem weighed_mono (more : ∀ entry, keep entry = true → other entry = true) :
    weighed keep entries ≤ weighed other entries := by
  induction entries with
  | nil => exact le_rfl
  | cons entry rest ih =>
    rw [weighed_cons, weighed_cons]
    have first : (if keep entry then entry.2 else 0) ≤ if other entry then entry.2 else 0 := by
      by_cases kept : keep entry = true
      · rw [if_pos kept, if_pos (more entry kept)]
      · rw [if_neg kept]
        exact Nat.zero_le _
    exact Nat.add_le_add first ih

/-- One path more is kept: its size is added. -/
theorem weighed_insert (distinct : (entries.map Prod.fst).Nodup) (member : (path, size) ∈ entries)
    (dropped : keep (path, size) = false) :
    weighed (fun entry => keep entry || entry.1 = path) entries = weighed keep entries + size := by
  induction entries with
  | nil => cases member
  | cons entry rest ih =>
    rw [List.map_cons, List.nodup_cons] at distinct
    rw [weighed_cons, weighed_cons]
    rcases List.mem_cons.mp member with rfl | later
    · have others : ∀ entry ∈ rest, (keep entry || entry.1 = path) = keep entry := by
        intro entry there
        have apart : entry.1 ≠ path := by
          rintro rfl
          exact distinct.1 (List.mem_map.mpr ⟨entry, there, rfl⟩)
        simp [apart]
      rw [weighed_congr others, dropped]
      simp [add_comm]
    · have apart : entry.1 ≠ path := fun same => distinct.1 (same ▸ List.mem_map_of_mem later)
      rw [ih distinct.2 later]
      simp [apart, add_assoc]

/-- The sizes together after one of them is replaced. -/
theorem sum_replaced (distinct : (entries.map Prod.fst).Nodup) (member : path ∈ entries.map Prod.fst) (size : ℕ) :
    ((entries.map fun entry => if entry.1 = path then (path, size) else entry).map Prod.snd).sum +
      ((entries.find? fun entry => entry.1 = path).map Prod.snd).getD 0 = (entries.map Prod.snd).sum + size := by
  induction entries with
  | nil => cases member
  | cons entry rest ih =>
    rw [List.map_cons, List.nodup_cons] at distinct
    by_cases here : entry.1 = path
    · have others : rest.map (fun entry => if entry.1 = path then (path, size) else entry) = rest := by
        refine (List.map_congr_left fun other there => if_neg ?_).trans (List.map_id' rest)
        rintro rfl
        exact distinct.1 (here ▸ List.mem_map_of_mem there)
      simp only [List.map_cons, if_true, others, List.sum_cons, List.find?_cons, here, decide_true,
        Option.map_some, Option.getD_some]
      omega
    · have later : path ∈ rest.map Prod.fst := by
        rw [List.map_cons, List.mem_cons] at member
        exact member.resolve_left (Ne.symm here)
      have rests := ih distinct.2 later
      simp only [List.map_cons, if_false, List.sum_cons, List.find?_cons, here, decide_false]
      omega

theorem total_set (files : Dict String ℕ) (path : String) (size : ℕ) :
    total (files.set path size) + (files.get? path).getD 0 = total files + size := by
  unfold total Dict.set Dict.get?
  split
  · next member => exact sum_replaced files.nodup member size
  · next fresh =>
      have absent : files.entries.find? (fun entry => entry.1 = path) = none := by
        refine List.find?_eq_none.mpr fun entry there same => fresh ?_
        exact List.mem_map.mpr ⟨entry, there, of_decide_eq_true same⟩
      rw [absent]
      simp

end Sums

/-! ## What the tally holds -/

section Tallies

variable {incoming staged : Dict String ℕ} {entry : String × ℕ}

theorem toWrite_foldl (entries : List (String × ℕ)) (tally : Tally) :
    (entries.foldl (Tally.count staged) tally).toWrite =
      tally.toWrite + weighed (fun entry => !isStaged staged entry) entries := by
  induction entries generalizing tally with
  | nil => rfl
  | cons entry rest ih =>
    rw [List.foldl_cons, ih, weighed_cons, Tally.count]
    cases held : isStaged staged entry with
    | true => simp
    | false => simp [add_assoc]

theorem largestStaged_foldl (entries : List (String × ℕ)) (tally : Tally) :
    tally.largestStaged ≤ (entries.foldl (Tally.count staged) tally).largestStaged ∧
      ∀ entry ∈ entries, isStaged staged entry = true →
        entry.2 ≤ (entries.foldl (Tally.count staged) tally).largestStaged := by
  induction entries generalizing tally with
  | nil => exact ⟨le_rfl, nofun⟩
  | cons first rest ih =>
    rw [List.foldl_cons]
    obtain ⟨grown, each⟩ := ih (tally.count staged first)
    have counted : tally.largestStaged ≤ (tally.count staged first).largestStaged := by
      rw [Tally.count]
      split
      · exact le_max_left _ _
      · exact le_rfl
    refine ⟨counted.trans grown, fun entry member held => ?_⟩
    rcases List.mem_cons.mp member with rfl | later
    · refine le_trans ?_ grown
      rw [Tally.count, if_pos held]
      exact le_max_right _ _
    · exact each entry later held

end Tallies

/-! ## What a copy holds -/

section Copies

variable {incoming staged : Dict String ℕ} {recopy : Bool} {target next : Target} {act : Act}

/-- What the files written so far add at most. -/
def added (incoming staged : Dict String ℕ) (written : List String) : ℕ :=
  weighed (fun entry => !isStaged staged entry && entry.1 ∈ written) incoming.entries

/-- Files not written are as they were, the written ones add their sizes at most, and the one in flight is a file the
copy needs. -/
structure Sound (incoming staged : Dict String ℕ) (recopy : Bool) (target : Target) : Prop where
  kept : ∀ path, path ∉ target.written → target.files.get? path = staged.get? path
  bounded : total target.files ≤ total staged + added incoming staged target.written
  flying : ∀ path there, target.inFlight = some (path, there) → path ∉ target.written ∧
    ∃ size, incoming.get? path = some size ∧ there ≤ size ∧ (recopy = true ∨ isStaged staged (path, size) = false)

theorem added_cons {written : List String} {path : String} {size : ℕ} (present : incoming.get? path = some size)
    (fresh : path ∉ written) :
    added incoming staged (path :: written) =
      added incoming staged written + if isStaged staged (path, size) then 0 else size := by
  have member := Dict.get?_eq_some_iff.mp present
  unfold added
  cases held : isStaged staged (path, size) with
  | true =>
    refine weighed_congr fun entry there => ?_
    by_cases same : entry.1 = path
    · have own : entry = (path, size) := by
        have value := Dict.get?_eq_some_iff.mpr (show (path, entry.2) ∈ incoming.entries from same ▸ there)
        rw [present] at value
        exact Prod.ext same (Option.some.inj value).symm
      rw [own, held]
      rfl
    · simp [same]
  | false =>
    rw [if_neg (by decide), ← weighed_insert incoming.nodup member (by simp [fresh])]
    refine weighed_congr fun entry there => ?_
    by_cases same : entry.1 = path
    · have own : entry = (path, size) := by
        have value := Dict.get?_eq_some_iff.mpr (show (path, entry.2) ∈ incoming.entries from same ▸ there)
        rw [present] at value
        exact Prod.ext same (Option.some.inj value).symm
      rw [own, held]
      simp
    · simp [same]

theorem sound_step (taken : step incoming staged recopy target act = some next)
    (sound : Sound incoming staged recopy target) : Sound incoming staged recopy next := by
  cases act with
  | start path =>
    unfold step at taken
    dsimp only at taken
    split at taken
    · next size present idle =>
        split at taken
        · next needed =>
            cases taken
            refine ⟨sound.kept, sound.bounded, fun other there flying => ?_⟩
            cases flying
            exact ⟨needed.1, size, present, Nat.zero_le _, needed.2⟩
        · cases taken
    · cases taken
  | write bytes =>
    unfold step at taken
    dsimp only at taken
    split at taken
    · next path there flying =>
        split at taken
        · next room =>
            cases taken
            obtain ⟨fresh, size, present, _, needed⟩ := sound.flying path there flying
            refine ⟨sound.kept, sound.bounded, fun other held same => ?_⟩
            cases same
            rw [present] at room
            exact ⟨fresh, size, present, of_decide_eq_true room, needed⟩
        · cases taken
    · cases taken
  | move =>
    unfold step at taken
    dsimp only at taken
    split at taken
    · next path there flying =>
        split at taken
        · next whole =>
            cases taken
            obtain ⟨fresh, size, present, _, _⟩ := sound.flying path there flying
            obtain rfl := Option.some.inj (whole.symm.trans present)
            refine ⟨fun other unwritten => ?_, ?_, fun _ _ flying => by cases flying⟩
            · rw [List.mem_cons, not_or] at unwritten
              rw [Dict.get?_set, if_neg unwritten.1]
              exact sound.kept other unwritten.2
            · have replaced := total_set target.files path there
              rw [sound.kept path fresh] at replaced
              have bounded := sound.bounded
              rw [added_cons whole fresh]
              cases held : isStaged staged (path, there) with
              | true =>
                rw [of_decide_eq_true held, Option.getD_some] at replaced
                rw [if_pos rfl]
                dsimp only
                omega
              | false =>
                rw [if_neg (by decide)]
                dsimp only
                omega
        · cases taken
    · cases taken

theorem sound_before : Sound incoming staged recopy (Target.before staged) :=
  ⟨fun _ _ => rfl, Nat.le_add_right _ _, nofun⟩

theorem added_le (written : List String) : added incoming staged written ≤ (tallied incoming staged).toWrite := by
  rw [tallied, toWrite_foldl, Nat.zero_add]
  refine weighed_mono fun entry kept => ?_
  rw [Bool.and_eq_true] at kept
  exact kept.1

/-- At no moment does a copy hold more beyond what was there than the bytes that remain. -/
theorem held_le (acts : List Act) (copied : exec (step incoming staged recopy) (Target.before staged) acts = some target) :
    target.held ≤ total staged + (remainingBytes incoming staged recopy).1 := by
  have sound := exec_invariant (fun _ _ _ => sound_step) sound_before copied
  have bounded := sound.bounded
  unfold Target.held remainingBytes
  dsimp only
  cases flying : target.inFlight with
  | none =>
    have most := @added_le incoming staged target.written
    simp only [Option.map_none, Option.getD_none]
    omega
  | some inFlight =>
    obtain ⟨path, there⟩ := inFlight
    obtain ⟨fresh, size, present, within, needed⟩ := sound.flying path there flying
    simp only [Option.map_some, Option.getD_some]
    cases held : isStaged staged (path, size) with
    | true =>
      have largest := (largestStaged_foldl incoming.entries ⟨0, 0, 0⟩).2 (path, size)
        (Dict.get?_eq_some_iff.mp present) held
      have most := @added_le incoming staged target.written
      rw [needed.resolve_right (by simp [held]), if_pos rfl, tallied]
      rw [tallied] at most
      dsimp only at largest
      omega
    | false =>
      have most := @added_le incoming staged (path :: target.written)
      rw [added_cons present fresh, held, if_neg (by decide)] at most
      omega

end Copies

/-! ## What the check answers -/

section Check

variable {incomingBytes : ℕ} {freeBytes needed : ℤ} {factor : ℚ} {verdict : SpaceVerdict}

/-- The product is rounded to a whole number below the bytes times the factor. -/
def RoundsShort (incomingBytes : ℕ) (factor : ℚ) : Prop :=
  double incomingBytes < limit ∧ product incomingBytes factor < limit ∧
    product incomingBytes factor < incomingBytes * factor ∧
    ((⌊product incomingBytes factor⌋ : ℤ) : ℚ) = product incomingBytes factor

theorem requiredBytes_eq_ok : requiredBytes incomingBytes factor = .ok needed ↔
    double incomingBytes < limit ∧ product incomingBytes factor < limit ∧
      needed = if ((⌊product incomingBytes factor⌋ : ℤ) : ℚ) = product incomingBytes factor then
          ⌊product incomingBytes factor⌋
        else ⌊product incomingBytes factor⌋ + 1 := by
  unfold requiredBytes
  rw [if_neg (by omega)]
  push_cast
  split
  · next past =>
      refine ⟨nofun, fun ⟨bytes, within, _⟩ => ?_⟩
      exact absurd past (not_or.mpr ⟨not_le.mpr bytes, not_le.mpr within⟩)
  · next within =>
      rw [not_or, not_le, not_le] at within
      constructor
      · intro same
        cases same
        exact ⟨within.1, within.2, rfl⟩
      · rintro ⟨_, _, rfl⟩
        rfl

theorem judge_ok (judged : judge incomingBytes freeBytes factor = .ok verdict) :
    requiredBytes incomingBytes factor = .ok verdict.requiredBytes ∧
      (verdict.ok = true ↔ verdict.requiredBytes ≤ freeBytes) := by
  unfold judge at judged
  split at judged
  · cases judged
  · next needed required =>
      cases judged
      exact ⟨required, decide_eq_true_iff⟩

theorem le_requiredBytes (least : 1 ≤ factor) (required : requiredBytes incomingBytes factor = .ok needed)
    (full : ¬ RoundsShort incomingBytes factor) : incomingBytes * factor ≤ needed := by
  obtain ⟨bytes, within, rfl⟩ := requiredBytes_eq_ok.mp required
  have below := Int.floor_le (product incomingBytes factor)
  by_cases whole : ((⌊product incomingBytes factor⌋ : ℤ) : ℚ) = product incomingBytes factor
  · rw [if_pos whole, whole]
    by_contra short
    exact full ⟨bytes, within, not_le.mp short, whole⟩
  · rw [if_neg whole]
    have small : incomingBytes < 2 ^ 53 := by
      by_contra large
      refine whole (double_whole_of_large ?_)
      have cast : ((2 ^ 53 : ℕ) : ℚ) ≤ incomingBytes := by exact_mod_cast not_lt.mp large
      have power : double ((2 ^ 53 : ℕ) : ℚ) = 2 ^ 53 := by
        have same := double_zpow (k := 53) (by norm_num)
        exact_mod_cast same
      have bound := double_mono (by positivity) cast
      rw [power] at bound
      push_cast
      calc (2 : ℚ) ^ 53 ≤ double incomingBytes := bound
        _ ≤ double incomingBytes * factor := le_mul_of_one_le_right (double_nonneg (Nat.cast_nonneg _)) least
    unfold product at whole ⊢
    push_cast at whole ⊢
    rw [double_natCast small] at whole ⊢
    exact le_floor_double (mul_nonneg (Nat.cast_nonneg _) (zero_le_one.trans least)) whole

/-- No copy holds more beyond what was there than the bytes that remain, and where the check answers ok the bytes
times the factor are free. -/
def SpaceCheckSound (incomingBytes : ℕ) (factor : ℚ) : Prop :=
  (∀ (incoming staged : Dict String ℕ) (recopy : Bool) (acts : List Act) (target : Target),
    exec (step incoming staged recopy) (Target.before staged) acts = some target →
    target.held ≤ total staged + (remainingBytes incoming staged recopy).1) ∧
  ∀ (freeBytes : ℤ) (verdict : SpaceVerdict), judge incomingBytes freeBytes factor = .ok verdict →
    verdict.ok = true → incomingBytes * factor ≤ freeBytes

/-- The space check is sound exactly where the product is not rounded to a whole number below. -/
theorem space_check_sound_iff (incomingBytes : ℕ) (factor : ℚ) (least : 1 ≤ factor) :
    SpaceCheckSound incomingBytes factor ↔ ¬ RoundsShort incomingBytes factor := by
  constructor
  · rintro ⟨_, sound⟩ ⟨bytes, within, short, whole⟩
    have required : requiredBytes incomingBytes factor = .ok ⌊product incomingBytes factor⌋ :=
      requiredBytes_eq_ok.mpr ⟨bytes, within, (if_pos whole).symm⟩
    have judged : judge incomingBytes ⌊product incomingBytes factor⌋ factor = .ok
        ⟨true, incomingBytes, ⌊product incomingBytes factor⌋, ⌊product incomingBytes factor⌋, factor⟩ := by
      rw [judge, required]
      simp
    have fits := sound _ _ judged rfl
    rw [whole] at fits
    exact absurd fits (not_le.mpr short)
  · intro full
    refine ⟨fun incoming staged recopy acts target => held_le acts, fun freeBytes verdict judged ok => ?_⟩
    obtain ⟨required, answer⟩ := judge_ok judged
    have found : (verdict.requiredBytes : ℚ) ≤ freeBytes := by exact_mod_cast answer.mp ok
    exact (le_requiredBytes least required full).trans found

end Check

theorem space_check_sound_ten : SpaceCheckSound 10 2 := by
  refine (space_check_sound_iff 10 2 (by norm_num)).mpr fun short => ?_
  have exact : product (10 : ℕ) 2 = 20 := by decide +kernel
  rw [RoundsShort, exact] at short
  exact absurd short.2.2.1 (by norm_num)

/-- One byte more than `2 ^ 53` is said to fit where `2 ^ 53` are free. -/
theorem one_byte_short :
    ∃ verdict, judge 9007199254740993 9007199254740992 1 = .ok verdict ∧ verdict.ok = true ∧
      ((9007199254740992 : ℤ) : ℚ) < (9007199254740993 : ℤ) * 1 := by
  have rounded : double (9007199254740993 : ℕ) = 9007199254740992 := by decide +kernel
  have short : product (9007199254740993 : ℕ) 1 = 9007199254740992 := by decide +kernel
  have finite : (9007199254740992 : ℚ) < limit := by decide +kernel
  have required : requiredBytes (9007199254740993 : ℕ) 1 = .ok 9007199254740992 := by
    have whole : ⌊(9007199254740992 : ℚ)⌋ = 9007199254740992 := by decide +kernel
    refine requiredBytes_eq_ok.mpr ⟨rounded ▸ finite, short ▸ finite, ?_⟩
    rw [short, whole, if_pos (by norm_num)]
  refine ⟨⟨true, 9007199254740993, 9007199254740992, 9007199254740992, 1⟩, ?_, rfl, by norm_num⟩
  have judged : judge (9007199254740993 : ℕ) 9007199254740992 1 =
      .ok ⟨true, 9007199254740993, 9007199254740992, 9007199254740992, 1⟩ := by
    rw [judge, required]
    rfl
  exact judged

end DbaBrain.Lib.RestoreSpace
