import Mathlib

/-!
# Insertion-ordered mappings

Python's `dict`: each key once, in the order the keys were first set.
-/

namespace DbaBrain.Foundation

/-- Entries in order, no two with one key. -/
structure Dict (κ α : Type) where
  entries : List (κ × α)
  nodup : (entries.map Prod.fst).Nodup

namespace Dict

variable {κ α : Type}

def empty : Dict κ α := ⟨[], List.nodup_nil⟩

/-- The entries whose key is kept. -/
def restrict (dict : Dict κ α) (keep : κ → Bool) : Dict κ α where
  entries := dict.entries.filter fun entry => keep entry.1
  nodup := dict.nodup.sublist (List.filter_sublist.map Prod.fst)

variable [DecidableEq κ]

def get? (dict : Dict κ α) (key : κ) : Option α :=
  (dict.entries.find? fun entry => entry.1 = key).map Prod.snd
variable {dict : Dict κ α} {key : κ}
variable {value : α} {β : Type*} {entries : List (κ × α)} {entry : κ × α}

theorem get?_eq_some_iff : dict.get? key = some value ↔ (key, value) ∈ dict.entries := by
  rw [get?, Option.map_eq_some_iff]
  constructor
  · rintro ⟨⟨other, held⟩, found, rfl⟩
    have same : other = key := by simpa using List.find?_some found
    exact same ▸ List.mem_of_find?_eq_some found
  · intro member
    cases found : dict.entries.find? fun entry => entry.1 = key with
    | none =>
      have missing := List.find?_eq_none.mp found (key, value) member
      simp at missing
    | some entry =>
      have same : entry.1 = key := by simpa using List.find?_some found
      refine ⟨entry, rfl, ?_⟩
      have one := List.inj_on_of_nodup_map dict.nodup (List.mem_of_find?_eq_some found) member same
      rw [one]

theorem get?_eq_none_iff : dict.get? key = none ↔ key ∉ dict.entries.map Prod.fst := by
  rw [Option.eq_none_iff_forall_ne_some, List.mem_map]
  constructor
  · rintro absent ⟨⟨_, value⟩, member, rfl⟩
    exact absent value (get?_eq_some_iff.mpr member)
  · intro absent value found
    exact absent ⟨(key, value), get?_eq_some_iff.mp found, rfl⟩

theorem mem_keys_iff : key ∈ dict.entries.map Prod.fst ↔ (dict.get? key).isSome = true := by
  rw [Option.isSome_iff_ne_none, Ne, get?_eq_none_iff, not_not]

@[simp]
theorem get?_empty (key : κ) : (empty : Dict κ α).get? key = none := rfl

theorem get?_restrict (dict : Dict κ α) (keep : κ → Bool) (key : κ) :
    (dict.restrict keep).get? key = if keep key then dict.get? key else none := by
  cases kept : keep key with
  | false => simp [get?_eq_none_iff, restrict, kept]
  | true =>
    rw [if_pos rfl]
    refine Option.ext fun value => ?_
    rw [get?_eq_some_iff, get?_eq_some_iff]
    simp [restrict, kept]

/-- `dict[key] = value`: in place when the key is there, at the end when it is not. -/
def set (dict : Dict κ α) (key : κ) (value : α) : Dict κ α :=
  if member : key ∈ dict.entries.map Prod.fst then
    { entries := dict.entries.map fun entry => if entry.1 = key then (key, value) else entry
      nodup := by
        have keys : (dict.entries.map fun entry => if entry.1 = key then (key, value) else entry).map Prod.fst =
            dict.entries.map Prod.fst := by
          rw [List.map_map]
          refine List.map_congr_left fun entry _ => ?_
          rw [Function.comp_apply]
          split
          · rename_i own
            exact own.symm
          · rfl
        rw [keys]
        exact dict.nodup }
  else
    { entries := dict.entries ++ [(key, value)]
      nodup := by
        rw [List.map_append, List.nodup_append]
        refine ⟨dict.nodup, List.nodup_singleton key, ?_⟩
        intro other held last own same
        obtain rfl := List.mem_singleton.mp own
        exact member (same ▸ held) }

theorem get?_set (dict : Dict κ α) (key : κ) (value : α) (other : κ) :
    (dict.set key value).get? other = if other = key then some value else dict.get? other := by
  rw [set]
  split
  · rename_i member
    refine Option.ext fun found => ?_
    rw [get?_eq_some_iff, List.mem_map]
    rcases eq_or_ne other key with rfl | different
    · rw [if_pos rfl, Option.some_inj]
      constructor
      · rintro ⟨entry, _, same⟩
        split at same
        · exact (Prod.mk.inj same).2
        · rename_i apart
          exact absurd (congrArg Prod.fst same) apart
      · rintro rfl
        obtain ⟨entry, present, own⟩ := List.mem_map.mp member
        exact ⟨entry, present, if_pos own⟩
    · rw [if_neg different, get?_eq_some_iff]
      constructor
      · rintro ⟨entry, there, same⟩
        split at same
        · exact absurd (Prod.mk.inj same).1.symm different
        · exact same ▸ there
      · intro there
        exact ⟨(other, found), there, if_neg different⟩
  · rename_i fresh
    refine Option.ext fun found => ?_
    rw [get?_eq_some_iff, List.mem_append, List.mem_singleton, Prod.mk.injEq]
    rcases eq_or_ne other key with rfl | different
    · rw [if_pos rfl, Option.some_inj]
      constructor
      · rintro (there | ⟨_, same⟩)
        · exact absurd (List.mem_map_of_mem there) fresh
        · exact same.symm
      · intro same
        exact Or.inr ⟨rfl, same.symm⟩
    · rw [if_neg different, get?_eq_some_iff]
      simp [different]

/-- A fold whose every step changes its own key alone is read one key at a time. -/
theorem get?_foldl {step : Dict κ α → β → Dict κ α} {keyOf : β → κ} {note : Option α → β → Option α}
    (own : ∀ dict x key, (step dict x).get? key = if keyOf x = key then note (dict.get? key) x else dict.get? key)
    (xs : List β) (dict : Dict κ α) (key : κ) :
    (xs.foldl step dict).get? key = (xs.filter fun x => keyOf x = key).foldl note (dict.get? key) := by
  induction xs generalizing dict with
  | nil => rfl
  | cons x rest ih =>
    rw [List.foldl_cons, ih, own]
    by_cases same : keyOf x = key
    · rw [if_pos same, List.filter_cons_of_pos (by simpa using same), List.foldl_cons]
    · rw [if_neg same, List.filter_cons_of_neg (by simpa using same)]

/-- Each key's values noted one after the other, from a blank. -/
theorem get?_foldl_set (keyOf : β → κ) (note : α → β → α) (blank : α) (xs : List β) (key : κ) :
    (xs.foldl (fun dict x => dict.set (keyOf x) (note ((dict.get? (keyOf x)).getD blank) x)) empty).get? key =
      if xs.filter (fun x => keyOf x = key) = [] then none
      else some ((xs.filter fun x => keyOf x = key).foldl note blank) := by
  have noted : ∀ (rest : List β) (held : α), rest.foldl (fun held x => some (note (held.getD blank) x)) (some held) =
      some (rest.foldl note held) := by
    intro rest
    induction rest with
    | nil => exact fun _ => rfl
    | cons x rest ih => exact fun held => ih (note held x)
  rw [@get?_foldl _ _ _ _ _ keyOf fun held x => some (note (held.getD blank) x)]
  · cases xs.filter fun x => keyOf x = key with
    | nil => rfl
    | cons first rest => exact noted rest (note blank first)
  · intro dict x key
    rw [get?_set]
    by_cases same : keyOf x = key
    · rw [if_pos same, if_pos same.symm, same]
    · rw [if_neg same, if_neg (Ne.symm same)]

/-- `dict.update(..)`. -/
def update (dict : Dict κ α) (entries : List (κ × α)) : Dict κ α :=
  entries.foldl (fun dict entry => dict.set entry.1 entry.2) dict

/-- Entries of new keys, no two of one key, are put behind the others. -/
theorem entries_update (distinct : ((dict.entries ++ entries).map Prod.fst).Nodup) :
    (dict.update entries).entries = dict.entries ++ entries := by
  induction entries generalizing dict with
  | nil => exact (List.append_nil _).symm
  | cons entry rest ih =>
    have fresh : entry.1 ∉ dict.entries.map Prod.fst := by
      rw [List.map_append, List.nodup_append] at distinct
      exact fun member => distinct.2.2 _ member _ (List.mem_map_of_mem List.mem_cons_self) rfl
    have added : (dict.set entry.1 entry.2).entries = dict.entries ++ [entry] := by
      rw [set, dif_neg fresh]
    have again := @ih (dict.set entry.1 entry.2) (by rw [added, List.append_assoc]; exact distinct)
    rw [added, List.append_assoc] at again
    exact again

theorem mem_of_mem_set (member : entry ∈ (dict.set key value).entries) :
    entry ∈ dict.entries ∨ entry = (key, value) := by
  rw [set] at member
  split at member
  · obtain ⟨held, inside, rfl⟩ := List.mem_map.mp member
    split
    · exact Or.inr rfl
    · exact Or.inl inside
  · rcases List.mem_append.mp member with inside | last
    · exact Or.inl inside
    · exact Or.inr (List.mem_singleton.mp last)

theorem mem_of_mem_update (member : entry ∈ (dict.update entries).entries) :
    entry ∈ dict.entries ∨ entry ∈ entries := by
  induction entries generalizing dict with
  | nil => exact Or.inl member
  | cons first rest ih =>
    rcases ih member with held | added
    · rcases mem_of_mem_set held with inside | rfl
      · exact Or.inl inside
      · exact Or.inr List.mem_cons_self
    · exact Or.inr (List.mem_cons_of_mem first added)

theorem get?_update (dict other : Dict κ α) (key : κ) :
    (dict.update other.entries).get? key = (other.get? key).or (dict.get? key) := by
  obtain ⟨entries, nodup⟩ := other
  induction entries generalizing dict with
  | nil => rfl
  | cons entry rest ih =>
    obtain ⟨first, value⟩ := entry
    obtain ⟨fresh, once⟩ := List.nodup_cons.mp nodup
    have later := ih (dict.set first value) once
    rw [update, List.foldl_cons, ← update]
    simp only at later ⊢
    rw [later, get?_set]
    rcases eq_or_ne key first with rfl | different
    · have gone : (⟨rest, once⟩ : Dict κ α).get? key = none := get?_eq_none_iff.mpr fresh
      have here : (⟨(key, value) :: rest, nodup⟩ : Dict κ α).get? key = some value :=
        get?_eq_some_iff.mpr List.mem_cons_self
      rw [gone, here, if_pos rfl]
      rfl
    · have same : (⟨(first, value) :: rest, nodup⟩ : Dict κ α).get? key = (⟨rest, once⟩ : Dict κ α).get? key := by
        simp [get?, different.symm]
      rw [same, if_neg different]

/-! ### The greatest value of a key -/

section Greatest

variable [LinearOrder α]

/-- `key`'s value, where it has none or a smaller one. -/
def raise (dict : Dict κ α) (key : κ) (value : α) : Dict κ α :=
  match dict.get? key with
  | some held => if held < value then dict.set key value else dict
  | none => dict.set key value

theorem get?_raise (dict : Dict κ α) (key other : κ) (value : α) :
    (dict.raise key value).get? other =
      if other = key then some ((dict.get? key).elim value (max value)) else dict.get? other := by
  unfold raise
  cases found : dict.get? key with
  | none => rw [get?_set, Option.elim_none]
  | some held =>
    rw [Option.elim_some]
    dsimp only
    split
    · rename_i less
      rw [get?_set, max_eq_left less.le]
    · rename_i notLess
      rw [max_eq_right (not_lt.mp notLess)]
      split
      · rename_i same
        rw [same, found]
      · rfl

def greatest (keyOf : α → κ) (values : List α) : Dict κ α :=
  values.foldl (fun dict value => dict.raise (keyOf value) value) empty

theorem greatest_concat (keyOf : α → κ) (values : List α) (last : α) :
    greatest keyOf (values ++ [last]) = (greatest keyOf values).raise (keyOf last) last := by
  rw [greatest, List.foldl_append]
  rfl

theorem get?_greatest (keyOf : α → κ) (values : List α) (key : κ) :
    match (greatest keyOf values).get? key with
    | none => ∀ value ∈ values, keyOf value ≠ key
    | some held => held ∈ values ∧ keyOf held = key ∧ ∀ value ∈ values, keyOf value = key → value ≤ held := by
  induction values using List.reverseRecOn with
  | nil => simp [greatest]
  | append_singleton values last ih =>
    rw [greatest_concat, get?_raise]
    by_cases same : key = keyOf last
    · rw [if_pos same]
      rw [same] at ih ⊢
      cases found : (greatest keyOf values).get? (keyOf last) with
      | none =>
        rw [found] at ih
        refine ⟨List.mem_append_right _ (List.mem_singleton_self _), rfl, ?_⟩
        intro value member own
        rcases List.mem_append.mp member with old | new
        · exact absurd own (ih value old)
        · exact (List.mem_singleton.mp new).le
      | some held =>
        rw [found] at ih
        obtain ⟨member, own, most⟩ := ih
        rw [Option.elim_some]
        refine ⟨?_, ?_, ?_⟩
        · rcases max_choice last held with is | is
          · rw [is]
            exact List.mem_append_right _ (List.mem_singleton_self _)
          · rw [is]
            exact List.mem_append_left _ member
        · rcases max_choice last held with is | is
          · rw [is]
          · rw [is, own]
        · intro value present own'
          rcases List.mem_append.mp present with old | new
          · exact (most value old own').trans (le_max_right _ _)
          · exact (List.mem_singleton.mp new).le.trans (le_max_left _ _)
    · rw [if_neg same]
      cases found : (greatest keyOf values).get? key with
      | none =>
        rw [found] at ih
        intro value member own
        rcases List.mem_append.mp member with old | new
        · exact ih value old own
        · rw [List.mem_singleton.mp new] at own
          exact same own.symm
      | some held =>
        rw [found] at ih
        obtain ⟨member, own, most⟩ := ih
        refine ⟨List.mem_append_left _ member, own, ?_⟩
        intro value present own'
        rcases List.mem_append.mp present with old | new
        · exact most value old own'
        · rw [List.mem_singleton.mp new] at own'
          exact absurd own'.symm same

end Greatest

/-- The same value under every key, in whatever order: `==` of two dicts. -/
def Same (first second : Dict κ α) : Prop := ∀ key, first.get? key = second.get? key

theorem Same.symm {first second : Dict κ α} (same : Same first second) : Same second first :=
  fun key => (same key).symm

end Dict

end DbaBrain.Foundation
