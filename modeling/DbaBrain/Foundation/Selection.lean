import Mathlib

/-!
# Groups, leftmost maxima and stable sorts of a list

The list operations a planner is written with: collecting rows under a key in
the order the keys are first seen, taking the leftmost element whose measure is
largest, sorting stably, and cutting a list after the first element that
qualifies.  The lemmas say what each one does on a filtered list.
-/

namespace DbaBrain.Foundation.Selection

variable {α κ τ : Type*}

/-! ## Groups -/

section Groups

variable [DecidableEq κ]

/-- Append `x` to the group of `key`, which is opened at the end when it is new. -/
def addTo : List (κ × List α) → κ → α → List (κ × List α)
  | [], key, x => [(key, [x])]
  | (seen, group) :: rest, key, x =>
      if seen = key then (seen, group ++ [x]) :: rest else (seen, group) :: addTo rest key x

def groupsBy (key : α → κ) (xs : List α) : List (κ × List α) :=
  xs.foldl (fun groups x => addTo groups (key x) x) []

def firstSeen (keys : List κ) : List κ :=
  keys.foldl (fun seen key => if key ∈ seen then seen else seen ++ [key]) []

theorem firstSeen_concat (keys : List κ) (key : κ) :
    firstSeen (keys ++ [key]) =
      if key ∈ firstSeen keys then firstSeen keys else firstSeen keys ++ [key] := by
  rw [firstSeen, List.foldl_append]
  rfl

@[simp] theorem mem_firstSeen (keys : List κ) (key : κ) : key ∈ firstSeen keys ↔ key ∈ keys := by
  induction keys using List.reverseRecOn with
  | nil => rfl
  | append_singleton keys last ih =>
      rw [firstSeen_concat]
      split
      · rename_i seen
        rw [ih, List.mem_append, List.mem_singleton]
        constructor
        · exact Or.inl
        · rintro (old | rfl)
          · exact old
          · exact ih.mp seen
      · rw [List.mem_append, List.mem_append, ih]

theorem firstSeen_nodup (keys : List κ) : (firstSeen keys).Nodup := by
  induction keys using List.reverseRecOn with
  | nil => exact List.nodup_nil
  | append_singleton keys last ih =>
    rw [firstSeen_concat]
    split
    · exact ih
    · rename_i unseen
      rw [List.nodup_append]
      refine ⟨ih, List.nodup_singleton _, ?_⟩
      intro key member other single same
      rw [List.mem_singleton] at single
      exact unseen (single ▸ same ▸ member)

variable {keys : List κ}
variable {key : κ}

theorem addTo_map_of_mem (nodup : keys.Nodup) (group : κ → List α) (x : α) (present : key ∈ keys) :
    addTo (keys.map fun k => (k, group k)) key x =
      keys.map fun k => (k, group k ++ if key = k then [x] else []) := by
  induction keys with
  | nil => cases present
  | cons head rest ih =>
    rw [List.nodup_cons] at nodup
    rw [List.map_cons, List.map_cons, addTo]
    by_cases same : head = key
    · subst same
      rw [if_pos rfl, if_pos rfl]
      congr 1
      apply List.map_congr_left
      intro k member
      have differ : head ≠ k := fun eq => nodup.1 (eq ▸ member)
      rw [if_neg differ, List.append_nil]
    · have later : key ∈ rest := (List.mem_cons.mp present).resolve_left (fun eq => same eq.symm)
      rw [if_neg same, if_neg (fun eq => same eq.symm), List.append_nil, ih nodup.2 later]

theorem addTo_map_of_notMem (group : κ → List α) (x : α) (absent : key ∉ keys) :
    addTo (keys.map fun k => (k, group k)) key x = (keys.map fun k => (k, group k)) ++ [(key, [x])] := by
  induction keys with
  | nil => rfl
  | cons head rest ih =>
    rw [List.mem_cons, not_or] at absent
    rw [List.map_cons, addTo, if_neg (fun eq => absent.1 eq.symm), ih absent.2, List.cons_append]

/-- A group holds the elements of its key, in the order of the list. -/
theorem groupsBy_eq (key : α → κ) (xs : List α) :
    groupsBy key xs = (firstSeen (xs.map key)).map fun k => (k, xs.filter fun x => key x = k) := by
  induction xs using List.reverseRecOn with
  | nil => rfl
  | append_singleton xs last ih =>
    rw [groupsBy, List.foldl_append]
    change addTo (groupsBy key xs) (key last) last = _
    have grown (k : κ) : (xs ++ [last]).filter (fun x => key x = k) =
        (xs.filter fun x => key x = k) ++ if key last = k then [last] else [] := by
      rw [List.filter_append]
      by_cases same : key last = k
      · rw [if_pos same, List.filter_cons_of_pos (by simpa using same), List.filter_nil]
      · rw [if_neg same, List.filter_cons_of_neg (by simpa using same), List.filter_nil]
    rw [ih, List.map_append, List.map_singleton, firstSeen_concat]
    simp only [grown]
    by_cases present : key last ∈ firstSeen (xs.map key)
    · rw [if_pos present, addTo_map_of_mem (firstSeen_nodup _) _ _ present]
    · rw [if_neg present, addTo_map_of_notMem _ _ present, List.map_append, List.map_singleton]
      congr 1
      · apply List.map_congr_left
        intro k member
        have differ : key last ≠ k := fun eq => present (eq ▸ member)
        rw [if_neg differ, List.append_nil]
      · have none : (xs.filter fun x => key x = key last) = [] := by
          rw [List.filter_eq_nil_iff]
          intro x member
          have unseen : key last ∉ xs.map key := fun seen => present ((mem_firstSeen _ _).mpr seen)
          simpa using fun same => unseen (List.mem_map.mpr ⟨x, member, same⟩)
        rw [none, if_pos rfl, List.nil_append]

theorem lookup_graph (keys : List κ) (value : κ → τ) (key : κ) :
    (keys.map fun k => (k, value k)).lookup key = if key ∈ keys then some (value key) else none := by
  induction keys with
  | nil => rfl
  | cons head rest ih =>
    rw [List.map_cons, List.lookup_cons, ih]
    by_cases same : key = head
    · simp [same]
    · simp [same, beq_false_of_ne same]

/-- The elements under `key`. -/
def groupOf (groups : List (κ × List α)) (key : κ) : List α := (groups.lookup key).getD []

theorem groupOf_cons (seen : κ) (group : List α) (rest : List (κ × List α)) (key : κ) :
    groupOf ((seen, group) :: rest) key = if seen = key then group else groupOf rest key := by
  by_cases same : seen = key
  · simp [groupOf, same]
  · have differ : (key == seen) = false := beq_false_of_ne (Ne.symm same)
    simp [groupOf, List.lookup_cons, same, differ]

theorem groupOf_addTo (groups : List (κ × List α)) (key other : κ) (x : α) :
    groupOf (addTo groups key x) other = groupOf groups other ++ if key = other then [x] else [] := by
  induction groups with
  | nil =>
    rw [addTo, groupOf_cons]
    rfl
  | cons head rest ih =>
    obtain ⟨seen, group⟩ := head
    rw [addTo, groupOf_cons]
    by_cases same : seen = key
    · subst same
      rw [if_pos rfl, groupOf_cons]
      split
      · rfl
      · rw [List.append_nil]
    · rw [if_neg same, groupOf_cons, ih]
      by_cases here : seen = other
      · rw [if_pos here, if_pos here, if_neg fun eq => same (here.trans eq.symm), List.append_nil]
      · rw [if_neg here, if_neg here]

theorem mem_keys_addTo (groups : List (κ × List α)) (key other : κ) (x : α) :
    other ∈ (addTo groups key x).map Prod.fst ↔ other = key ∨ other ∈ groups.map Prod.fst := by
  induction groups with
  | nil => simp [addTo]
  | cons head rest ih =>
    obtain ⟨seen, group⟩ := head
    rw [addTo]
    by_cases same : seen = key
    · subst same
      simp only [if_pos, List.map_cons, List.mem_cons, or_self_left]
    · simp only [if_neg same, List.map_cons, List.mem_cons, ih, or_left_comm]

theorem groupOf_groupsBy (key : α → κ) (xs : List α) (k : κ) :
    groupOf (groupsBy key xs) k = xs.filter fun x => key x = k := by
  induction xs using List.reverseRecOn with
  | nil => rfl
  | append_singleton xs last ih =>
    rw [groupsBy, List.foldl_append]
    change groupOf (addTo (groupsBy key xs) (key last) last) k = _
    rw [groupOf_addTo, ih, List.filter_append]
    by_cases same : key last = k
    · rw [if_pos same, List.filter_cons_of_pos (by simpa using same), List.filter_nil]
    · rw [if_neg same, List.filter_cons_of_neg (by simpa using same), List.filter_nil]

theorem mem_keys_groupsBy (key : α → κ) (xs : List α) (k : κ) :
    k ∈ (groupsBy key xs).map Prod.fst ↔ ∃ x ∈ xs, key x = k := by
  rw [groupsBy_eq, List.map_map]
  simp

theorem flatMap_of_unique (nodup : keys.Nodup) {group : κ → List α} (key : κ)
    (others : ∀ k ∈ keys, k ≠ key → group k = []) (absent : key ∉ keys → group key = []) :
    keys.flatMap group = group key := by
  induction keys with
  | nil => exact (absent List.not_mem_nil).symm
  | cons head rest ih =>
    rw [List.nodup_cons] at nodup
    rw [List.flatMap_cons]
    by_cases same : head = key
    · subst same
      have nothing : rest.flatMap group = [] := by
        rw [List.flatMap_eq_nil_iff]
        intro k member
        exact others k (List.mem_cons_of_mem _ member) fun eq => nodup.1 (eq ▸ member)
      rw [nothing, List.append_nil]
    · rw [others head List.mem_cons_self same, List.nil_append]
      apply ih nodup.2 fun k member => others k (List.mem_cons_of_mem _ member)
      intro absentRest
      apply absent
      simpa [Ne.symm same] using absentRest

/-- Reading the groups one after another keeps the order inside each group. -/
theorem flatMap_groupsBy_filter (key : α → κ) (xs : List α) (k : κ) :
    ((groupsBy key xs).flatMap Prod.snd).filter (fun x => key x = k) = xs.filter fun x => key x = k := by
  rw [groupsBy_eq, List.flatMap_map, List.filter_flatMap]
  have split (other : κ) : (xs.filter fun x => key x = other).filter (fun x => key x = k) =
      if other = k then xs.filter fun x => key x = k else [] := by
    by_cases same : other = k
    · simp [same]
    · rw [if_neg same, List.filter_filter, List.filter_eq_nil_iff]
      intro x _
      simp only [Bool.and_eq_true, decide_eq_true_eq, not_and]
      rintro rfl other
      exact same other.symm
  simp only [split]
  rw [flatMap_of_unique (firstSeen_nodup _) k, if_pos rfl]
  · intro other _ differ
    exact if_neg differ
  · intro absent
    rw [if_pos rfl, List.filter_eq_nil_iff]
    intro x member
    rw [mem_firstSeen] at absent
    simpa using fun same => absent (List.mem_map.mpr ⟨x, member, same⟩)

end Groups

/-! ## Leftmost maxima -/

section Maxima

variable [LinearOrder τ]
variable {measure : α → τ}
variable {xs : List α} {best : α}

theorem argmax_filter {keep : α → Bool} (found : xs.argmax measure = some best) (kept : keep best = true) :
    (xs.filter keep).argmax measure = some best := by
  induction xs using List.reverseRecOn generalizing best with
  | nil => cases found
  | append_singleton xs last ih =>
    rw [List.argmax_concat] at found
    rw [List.filter_append]
    cases before : xs.argmax measure with
    | none =>
      have empty : xs = [] := List.argmax_eq_none.mp before
      rw [before] at found
      have same : last = best := Option.some.inj found
      subst same
      rw [empty, List.filter_nil, List.nil_append, List.filter_cons_of_pos kept]
      rfl
    | some earlier =>
      rw [before] at found
      dsimp only at found
      by_cases larger : measure earlier < measure last
      · rw [if_pos larger] at found
        have same : last = best := Option.some.inj found
        subst same
        rw [List.filter_cons_of_pos kept, List.filter_nil, List.argmax_concat]
        cases other : (xs.filter keep).argmax measure with
        | none => rfl
        | some rival =>
          have member := List.argmax_mem (Option.mem_def.mpr other)
          have below := List.le_of_mem_argmax (List.mem_of_mem_filter member) (Option.mem_def.mpr before)
          dsimp only
          rw [if_pos (below.trans_lt larger)]
      · rw [if_neg larger] at found
        have same : earlier = best := Option.some.inj found
        subst same
        have inner := ih before kept
        by_cases lastKept : keep last = true
        · rw [List.filter_cons_of_pos lastKept, List.filter_nil, List.argmax_concat, inner]
          dsimp only
          rw [if_neg larger]
        · rw [List.filter_cons_of_neg lastKept, List.filter_nil, List.append_nil, inner]

theorem argmax_map {change : κ → α} (xs : List κ) :
    (xs.map change).argmax measure = (xs.argmax fun x => measure (change x)).map change := by
  induction xs using List.reverseRecOn with
  | nil => rfl
  | append_singleton xs last ih =>
    rw [List.map_append, List.map_singleton, List.argmax_concat, List.argmax_concat, ih]
    cases xs.argmax fun x => measure (change x) with
    | none => rfl
    | some best =>
      dsimp only [Option.map_some]
      split <;> rfl

/-- The element every other is below is the maximum, wherever it stands. -/
theorem argmax_eq_of_above (member : best ∈ xs) (above : ∀ x ∈ xs, x ≠ best → measure x < measure best) :
    xs.argmax measure = some best := by
  cases found : xs.argmax measure with
  | none =>
    rw [List.argmax_eq_none.mp found] at member
    cases member
  | some other =>
    by_cases same : other = best
    · rw [same]
    · have below := above other (List.argmax_mem (Option.mem_def.mpr found)) same
      exact absurd below (List.le_of_mem_argmax member (Option.mem_def.mpr found)).not_gt

end Maxima

/-! ## Filters -/

/-- What comes before an element of a sorted list is what is less. -/
theorem eq_filter_lt_of_split {measure : α → Int} {front back : List α} {x : α}
    (sorted : (front ++ x :: back).Pairwise fun first second => measure first < measure second) :
    front = (front ++ x :: back).filter fun y => measure y < measure x := by
  obtain ⟨_, rest, apart⟩ := List.pairwise_append.mp sorted
  have before : (front.filter fun y => measure y < measure x) = front := by
    rw [List.filter_eq_self]
    intro y member
    simpa using apart y member x List.mem_cons_self
  have after : ((x :: back).filter fun y => measure y < measure x) = [] := by
    rw [List.filter_eq_nil_iff]
    intro y member less
    rcases List.mem_cons.mp member with rfl | later
    · simp at less
    · have above := (List.pairwise_cons.mp rest).1 y later
      exact absurd (of_decide_eq_true less) above.asymm
  rw [List.filter_append, before, after, List.append_nil]

/-- A change that neither moves an element past the filter nor changes what is read of it. -/
theorem map_filter_map {change : α → α} {keep : α → Bool} {read : α → β} {xs : List α}
    (same : ∀ x ∈ xs, keep (change x) = keep x ∧ read (change x) = read x) :
    ((xs.map change).filter keep).map read = (xs.filter keep).map read := by
  rw [List.filter_map, List.map_map]
  have kept : xs.filter (keep ∘ change) = xs.filter keep :=
    List.filter_congr fun x member => (same x member).1
  rw [kept]
  exact List.map_congr_left fun x member => (same x (List.mem_filter.mp member).1).2

/-! ## Stable sorts -/

/-- Python's `sorted` with a key: stable, in the order of the measure. -/
def sortedBy [LinearOrder τ] (measure : α → τ) (xs : List α) : List α :=
  xs.insertionSort fun first second => measure first ≤ measure second

section Sorting

variable [LinearOrder τ]

theorem sortedBy_perm (measure : α → τ) (xs : List α) : (sortedBy measure xs).Perm xs :=
  List.perm_insertionSort _ xs

@[simp] theorem mem_sortedBy (measure : α → τ) (xs : List α) (x : α) : x ∈ sortedBy measure xs ↔ x ∈ xs :=
  (sortedBy_perm measure xs).mem_iff

/-- Keys carried along with their groups sort as the keys do. -/
theorem sortedBy_fst_map (keys : List τ) (group : τ → α) :
    sortedBy Prod.fst (keys.map fun key => (key, group key)) =
      (sortedBy id keys).map fun key => (key, group key) := by
  symm
  apply List.map_insertionSort
  intro first _ second _
  exact Iff.rfl

theorem sortedBy_id_filter {keys part : List τ} (nodup : keys.Nodup) (partNodup : part.Nodup)
    (subset : ∀ key ∈ part, key ∈ keys) :
    sortedBy id part = (sortedBy id keys).filter fun key => key ∈ part := by
  have sorted (ks : List τ) : (sortedBy id ks).Pairwise (· ≤ ·) := List.pairwise_insertionSort (· ≤ ·) ks
  have sameMembers : (sortedBy id part).Perm ((sortedBy id keys).filter fun key => key ∈ part) := by
    apply (List.perm_ext_iff_of_nodup ?_ ?_).mpr
    · intro key
      simp only [mem_sortedBy, List.mem_filter, decide_eq_true_eq]
      exact ⟨fun member => ⟨subset key member, member⟩, And.right⟩
    · exact (sortedBy_perm id part).nodup_iff.mpr partNodup
    · exact ((sortedBy_perm id keys).nodup_iff.mpr nodup).filter _
  exact sameMembers.eq_of_pairwise (fun _ _ _ _ => le_antisymm) (sorted part) ((sorted keys).filter _)

variable {measure : α → τ} {xs : List α} {last : α}

/-- What is sorted already stays. -/
theorem sortedBy_eq_self (sorted : xs.Pairwise fun first second => measure first ≤ measure second) :
    sortedBy measure xs = xs :=
  sorted.insertionSort_eq

theorem sortedBy_pairwise (measure : α → τ) (xs : List α) :
    (sortedBy measure xs).Pairwise fun first second => measure first ≤ measure second := by
  have mapped : (sortedBy measure xs).map measure = (xs.map measure).insertionSort (· ≤ ·) := by
    apply List.map_insertionSort
    intro first _ second _
    exact Iff.rfl
  refine List.pairwise_map.mp ?_
  rw [mapped]
  exact List.pairwise_insertionSort (· ≤ ·) _

/-- The elements of one measure keep their order. -/
theorem filter_sortedBy (measure : α → τ) (xs : List α) (value : τ) :
    ((sortedBy measure xs).filter fun x => measure x = value) = xs.filter fun x => measure x = value := by
  have equal : (xs.filter fun x => measure x = value).Pairwise fun first second => measure first ≤ measure second := by
    refine List.pairwise_of_forall_mem_list ?_
    intro first member second member'
    have here : measure first = value := by simpa using (List.mem_filter.mp member).2
    have there : measure second = value := by simpa using (List.mem_filter.mp member').2
    exact (here.trans there.symm).le
  have kept : (xs.filter fun x => measure x = value).Sublist (sortedBy measure xs) :=
    List.sublist_insertionSort equal List.filter_sublist
  have inside : (xs.filter fun x => measure x = value).Sublist
      ((sortedBy measure xs).filter fun x => measure x = value) := by
    have again := kept.filter fun x => measure x = value
    simpa only [List.filter_filter, Bool.and_self] using again
  exact (inside.eq_of_length ((sortedBy_perm measure xs).filter _).length_eq.symm).symm

variable {ys : List α} {x : α}

/-- Two sorted lists of the same elements are one, where no two elements have one measure. -/
theorem eq_of_sorted_perm (perm : xs.Perm ys) (apart : (xs.map measure).Nodup)
    (sorted : xs.Pairwise fun first second => measure first ≤ measure second)
    (again : ys.Pairwise fun first second => measure first ≤ measure second) : xs = ys := by
  refine List.Perm.eq_of_pairwise ?_ sorted again perm
  intro first second member present below above
  exact List.inj_on_of_nodup_map apart member (perm.mem_iff.mpr present) (le_antisymm below above)

/-- Where no two elements have one measure, the order the elements come in does not matter. -/
theorem sortedBy_eq_of_perm (perm : xs.Perm ys) (apart : (xs.map measure).Nodup) :
    sortedBy measure xs = sortedBy measure ys :=
  eq_of_sorted_perm ((sortedBy_perm measure xs).trans (perm.trans (sortedBy_perm measure ys).symm))
    (((sortedBy_perm measure xs).map measure).nodup_iff.mpr apart) (sortedBy_pairwise measure xs)
    (sortedBy_pairwise measure ys)

theorem orderedInsert_of_below (below : ∀ y ∈ xs, measure x ≤ measure y) :
    xs.orderedInsert (fun first second => measure first ≤ measure second) x = x :: xs := by
  cases xs with
  | nil => rfl
  | cons head rest => exact if_pos (below head List.mem_cons_self)

theorem orderedInsert_filter (x : α) (keep : α → Bool)
    (sorted : xs.Pairwise fun first second => measure first ≤ measure second) :
    (xs.orderedInsert (fun first second => measure first ≤ measure second) x).filter keep =
      if keep x then (xs.filter keep).orderedInsert (fun first second => measure first ≤ measure second) x
      else xs.filter keep := by
  induction xs with
  | nil => cases kept : keep x <;> simp [kept]
  | cons head rest ih =>
    obtain ⟨above, others⟩ := List.pairwise_cons.mp sorted
    rw [List.orderedInsert]
    by_cases first : measure x ≤ measure head
    · have below : ∀ y ∈ (head :: rest).filter keep, measure x ≤ measure y := by
        intro y member
        rcases List.mem_cons.mp (List.mem_filter.mp member).1 with rfl | later
        · exact first
        · exact first.trans (above y later)
      rw [if_pos first, List.filter_cons, orderedInsert_of_below below]
    · rw [if_neg first, List.filter_cons, ih others, List.filter_cons]
      cases kept : keep head with
      | true =>
        rw [if_pos rfl, if_pos rfl, List.orderedInsert, if_neg first]
        split <;> rfl
      | false => rfl

/-- Elements are left out before the sort or after it. -/
theorem sortedBy_filter (measure : α → τ) (xs : List α) (keep : α → Bool) :
    sortedBy measure (xs.filter keep) = (sortedBy measure xs).filter keep := by
  induction xs with
  | nil => rfl
  | cons x rest ih =>
    have inserted := orderedInsert_filter x keep (sortedBy_pairwise measure rest)
    rw [← ih] at inserted
    unfold sortedBy at inserted ⊢
    rw [List.insertionSort_cons, inserted, List.filter_cons]
    split <;> rfl

/-- The element every other is below comes last. -/
theorem getLast?_sortedBy_of_above {best : α} (member : best ∈ xs)
    (above : ∀ x ∈ xs, x ≠ best → measure x < measure best) : (sortedBy measure xs).getLast? = some best := by
  have sorted := sortedBy_pairwise measure xs
  have among : ∀ x, x ∈ sortedBy measure xs ↔ x ∈ xs := mem_sortedBy measure xs
  rcases List.eq_nil_or_concat' (sortedBy measure xs) with empty | ⟨front, last, split⟩
  · rw [← among, empty] at member
    cases member
  · rw [split] at sorted among ⊢
    rw [List.getLast?_concat, Option.some.injEq]
    by_contra differ
    have below : measure last < measure best := above last ((among last).mp (by simp)) differ
    have earlier : best ∈ front := by
      have present := (among best).mpr member
      simpa [Ne.symm differ] using present
    exact absurd below ((List.pairwise_append.mp sorted).2.2 best earlier last (by simp)).not_gt

theorem orderedInsert_concat (below : measure x ≤ measure last) :
    (xs ++ [last]).orderedInsert (fun first second => measure first ≤ measure second) x =
      xs.orderedInsert (fun first second => measure first ≤ measure second) x ++ [last] := by
  induction xs with
  | nil => exact if_pos below
  | cons head rest ih =>
    rw [List.cons_append, List.orderedInsert, List.orderedInsert, ih]
    split <;> rfl

/-- What nothing is above stays last. -/
theorem sortedBy_concat (below : ∀ x ∈ xs, measure x ≤ measure last) :
    sortedBy measure (xs ++ [last]) = sortedBy measure xs ++ [last] := by
  induction xs with
  | nil => rfl
  | cons head rest ih =>
    have inner := ih fun x member => below x (List.mem_cons_of_mem _ member)
    unfold sortedBy at inner ⊢
    rw [List.cons_append, List.insertionSort_cons, inner, orderedInsert_concat (below head List.mem_cons_self),
      List.insertionSort_cons]

theorem getLast?_sortedBy_mem (found : (sortedBy measure xs).getLast? = some last) : last ∈ xs :=
  (mem_sortedBy measure xs last).mp (List.mem_of_getLast? found)

theorem flatMap_filter_of_nil {keep : α → Bool} {pieces : α → List κ}
    (nothing : ∀ x ∈ xs, keep x = false → pieces x = []) : (xs.filter keep).flatMap pieces = xs.flatMap pieces := by
  induction xs with
  | nil => rfl
  | cons x rest ih =>
    have inner := ih fun y member => nothing y (List.mem_cons_of_mem _ member)
    cases kept : keep x with
    | true => simp [kept, inner]
    | false => simp [kept, inner, nothing x List.mem_cons_self kept]

end Sorting

/-! ## Passes that may stop -/

section Passes

variable {σ : Type*}

variable {xs : List α}

/-- What a pass ends with, where each of its steps adds to what holds what it says of one element. -/
theorem foldlM_adds {step : σ → α → Option σ} (holds : σ → Prop) {adds : α → Prop} {first last : σ}
    (each : ∀ acc, ∀ x ∈ xs, ∀ next, step acc x = some next → (holds next ↔ holds acc ∨ adds x))
    (ran : xs.foldlM step first = some last) : holds last ↔ holds first ∨ ∃ x ∈ xs, adds x := by
  induction xs generalizing first with
  | nil =>
    cases ran
    simp
  | cons x rest ih =>
    rw [List.foldlM_cons, Option.bind_eq_bind, Option.bind_eq_some_iff] at ran
    obtain ⟨next, stepped, onward⟩ := ran
    have inner := ih (fun acc y member => each acc y (List.mem_cons_of_mem _ member)) onward
    rw [inner, each first x List.mem_cons_self next stepped, or_assoc]
    simp only [List.mem_cons, exists_eq_or_imp]

theorem eq_filter_of_filterM {β : Type} {test : β → Option Bool} {xs ys : List β} (ran : xs.filterM test = some ys) :
    ys = xs.filter fun x => test x = some true := by
  have collected (pending : List β) : ∀ done, xs.filterAuxM test pending = some done →
      done = (xs.filter fun x => test x = some true).reverse ++ pending := by
    clear ran
    induction xs generalizing pending with
    | nil =>
      intro done ran
      cases ran
      rfl
    | cons x rest ih =>
      intro done ran
      rw [List.filterAuxM, Option.bind_eq_bind, Option.bind_eq_some_iff] at ran
      obtain ⟨kept, tested, onward⟩ := ran
      have inner := ih _ done onward
      cases kept with
      | true => simpa [tested] using inner
      | false => simpa [tested] using inner
  rw [List.filterM, Option.bind_eq_bind, Option.bind_eq_some_iff] at ran
  obtain ⟨done, ran, reversed⟩ := ran
  cases reversed
  rw [collected [] done ran, List.append_nil, List.reverse_reverse]

theorem allM_eq_true_iff {test : α → Option Bool} {every : Bool} (ran : xs.allM test = some every) :
    every = true ↔ ∀ x ∈ xs, test x = some true := by
  induction xs with
  | nil =>
    cases ran
    simp
  | cons x rest ih =>
    rw [List.allM, Option.bind_eq_bind, Option.bind_eq_some_iff] at ran
    obtain ⟨held, tested, onward⟩ := ran
    cases held with
    | true => rw [ih onward, List.forall_mem_cons, tested, eq_self_iff_true, true_and]
    | false =>
      cases onward
      simp [tested]

end Passes

/-- Up to and including the first element that reaches. -/
def throughFirst (reaches : α → Bool) : List α → List α
  | [] => []
  | x :: rest => if reaches x then [x] else x :: throughFirst reaches rest

section ThroughFirst

variable {reaches : α → Bool} {xs : List α} {x : α}

theorem throughFirst_sublist (reaches : α → Bool) (xs : List α) : (throughFirst reaches xs).Sublist xs := by
  induction xs with
  | nil => exact List.Sublist.refl []
  | cons head rest ih =>
    rw [throughFirst]
    split
    · exact List.singleton_sublist.mpr List.mem_cons_self
    · exact ih.cons_cons head

theorem throughFirst_map {change : κ → α} {ys : List κ} :
    throughFirst reaches (ys.map change) = (throughFirst (fun y => reaches (change y)) ys).map change := by
  induction ys with
  | nil => rfl
  | cons head rest ih =>
    rw [List.map_cons, throughFirst, throughFirst, ih]
    split <;> rfl

/-- Where something reaches, the cut list ends with it. -/
theorem getLast?_throughFirst (reached : ∃ x ∈ xs, reaches x = true) :
    ∃ last, (throughFirst reaches xs).getLast? = some last ∧ reaches last = true := by
  induction xs with
  | nil =>
    obtain ⟨x, member, -⟩ := reached
    cases member
  | cons head rest ih =>
    rw [throughFirst]
    cases here : reaches head with
    | true => exact ⟨head, rfl, here⟩
    | false =>
      obtain ⟨x, member, reaching⟩ := reached
      have later : x ∈ rest := by
        rcases List.mem_cons.mp member with rfl | later
        · rw [here] at reaching
          cases reaching
        · exact later
      obtain ⟨last, found, at_last⟩ := ih ⟨x, later, reaching⟩
      refine ⟨last, ?_, at_last⟩
      rw [if_neg Bool.false_ne_true, List.getLast?_cons, found]
      rfl

/-- Leaving out what is not needed changes nothing, where something reaches. -/
theorem throughFirst_filter {keep : α → Bool} (kept : ∀ x ∈ throughFirst reaches xs, keep x = true)
    (reached : ∃ x ∈ xs, reaches x = true) : throughFirst reaches (xs.filter keep) = throughFirst reaches xs := by
  induction xs with
  | nil => rfl
  | cons head rest ih =>
    rw [throughFirst] at kept ⊢
    cases here : reaches head with
    | true =>
      rw [here, if_pos rfl] at kept
      rw [List.filter_cons_of_pos (kept head (List.mem_singleton_self head)), throughFirst, here, if_pos rfl, if_pos rfl]
    | false =>
      rw [here, if_neg Bool.false_ne_true] at kept
      obtain ⟨x, member, reaching⟩ := reached
      have later : x ∈ rest := by
        rcases List.mem_cons.mp member with rfl | later
        · rw [here] at reaching
          cases reaching
        · exact later
      rw [List.filter_cons_of_pos (kept head List.mem_cons_self), throughFirst, here, if_neg Bool.false_ne_true,
        if_neg Bool.false_ne_true, ih (fun y among => kept y (List.mem_cons_of_mem _ among)) ⟨x, later, reaching⟩]

variable {measure : α → τ} {moment : τ}

/-- What does not reach, and lies before whatever does, is taken. -/
theorem mem_throughFirst [LinearOrder τ] (sorted : xs.Pairwise fun first second => measure first ≤ measure second)
    (member : x ∈ xs) (before : measure x < moment) : x ∈ throughFirst (fun y => decide (moment ≤ measure y)) xs := by
  induction xs with
  | nil => cases member
  | cons head rest ih =>
    obtain ⟨first, later⟩ := List.pairwise_cons.mp sorted
    rw [throughFirst]
    rcases List.mem_cons.mp member with rfl | among
    · simp [before.not_ge]
    · have ahead : measure head < moment := (first x among).trans_lt before
      simp [ahead.not_ge, ih later among]

/-- Of elements apart, those are taken that no reaching one lies before. -/
theorem mem_throughFirst_iff [LinearOrder τ] (apart : xs.Pairwise fun first second => measure first < measure second) :
    x ∈ throughFirst (fun y => decide (moment ≤ measure y)) xs ↔
      x ∈ xs ∧ ∀ y ∈ xs, moment ≤ measure y → measure x ≤ measure y := by
  induction xs with
  | nil => simp [throughFirst]
  | cons head rest ih =>
    obtain ⟨first, later⟩ := List.pairwise_cons.mp apart
    rw [throughFirst]
    by_cases here : moment ≤ measure head
    · rw [if_pos (decide_eq_true here), List.mem_singleton]
      constructor
      · rintro rfl
        refine ⟨List.mem_cons_self, ?_⟩
        intro y among _
        rcases List.mem_cons.mp among with rfl | after
        · exact le_refl _
        · exact (first y after).le
      · rintro ⟨among, below⟩
        rcases List.mem_cons.mp among with same | after
        · exact same
        · exact absurd (below head List.mem_cons_self here) (first x after).not_ge
    · rw [if_neg (by simpa using here), List.mem_cons, List.mem_cons, ih later, List.forall_mem_cons]
      constructor
      · rintro (rfl | ⟨after, below⟩)
        · exact ⟨.inl rfl, fun reaching => absurd reaching here, fun y among _ => (first y among).le⟩
        · exact ⟨.inr after, fun reaching => absurd reaching here, below⟩
      · rintro ⟨same | after, -, below⟩
        · exact .inl same
        · exact .inr ⟨after, below⟩

/-- Cutting past the moment keeps what cutting at it keeps, unless what is not last lies on it. -/
theorem throughFirst_past_eq_iff {β : Type*} [LinearOrder τ] (read : α → β)
    (sorted : xs.Pairwise fun first second => measure first ≤ measure second) :
    (throughFirst (fun x => decide (moment < measure x)) xs).map read =
        (throughFirst (fun x => decide (moment ≤ measure x)) xs).map read ↔
      ∀ x ∈ xs.dropLast, measure x ≠ moment := by
  induction xs with
  | nil => simp [throughFirst]
  | cons head rest ih =>
    obtain ⟨first, later⟩ := List.pairwise_cons.mp sorted
    rcases lt_trichotomy (measure head) moment with before | same | past
    · have others : (∀ x ∈ (head :: rest).dropLast, measure x ≠ moment) ↔ ∀ x ∈ rest.dropLast, measure x ≠ moment := by
        cases rest with
        | nil => simp
        | cons next rest => simp [before.ne]
      rw [throughFirst, throughFirst, if_neg (by simpa using before.le), if_neg (by simpa using before), List.map_cons,
        List.map_cons, List.cons_inj_right, ih later, others]
    · rw [throughFirst, throughFirst, if_neg (by simp [same]), if_pos (by simp [same])]
      cases rest with
      | nil => simp [throughFirst]
      | cons next rest =>
        have onward : throughFirst (fun x => decide (moment < measure x)) (next :: rest) ≠ [] := by
          rw [throughFirst]
          split <;> simp
        simp [same, onward]
    · have apart : ∀ x ∈ (head :: rest).dropLast, measure x ≠ moment := by
        intro x member
        rcases List.mem_cons.mp (List.dropLast_subset _ member) with rfl | among
        · exact past.ne'
        · exact (past.trans_le (first x among)).ne'
      rw [throughFirst, throughFirst, if_pos (by simpa using past), if_pos (by simpa using past.le)]
      simpa using apart

end ThroughFirst

end DbaBrain.Foundation.Selection
