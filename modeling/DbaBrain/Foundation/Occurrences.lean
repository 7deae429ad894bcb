import Mathlib

/-!
# Numbered occurrences

Each item of a list beside its number among the items of its key: the first is one,
the next of the same key two.  No key has a number twice.
-/

namespace DbaBrain.Foundation.Occurrences

variable {α κ : Type} [BEq κ] (key : α → κ)

/-- The items after keys that were seen, each with its number. -/
def numberedFrom (seen : List κ) : List α → List (α × Nat)
  | [] => []
  | item :: rest => (item, seen.count (key item) + 1) :: numberedFrom (key item :: seen) rest

def numbered (items : List α) : List (α × Nat) := numberedFrom key [] items

variable {key}

theorem length_numberedFrom (seen : List κ) (items : List α) : (numberedFrom key seen items).length = items.length := by
  induction items generalizing seen with
  | nil => rfl
  | cons item rest ih => rw [numberedFrom, List.length_cons, ih, List.length_cons]

theorem getElem?_numberedFrom (seen : List κ) (front : List α) (item : α) (back : List α) :
    (numberedFrom key seen (front ++ item :: back))[front.length]? =
      some (item, seen.count (key item) + (front.map key).count (key item) + 1) := by
  induction front generalizing seen with
  | nil => rw [List.nil_append, numberedFrom, List.length_nil, List.getElem?_cons_zero, List.map_nil, List.count_nil]
  | cons first rest ih =>
    rw [List.cons_append, numberedFrom, List.length_cons, List.getElem?_cons_succ, ih, List.map_cons, List.count_cons,
      List.count_cons]
    congr 2
    omega

variable {items : List α} {item : α}
variable {seen : List κ} {number : Nat}

theorem mem_numberedFrom_iff :
    (item, number) ∈ numberedFrom key seen items ↔ ∃ front back, items = front ++ item :: back ∧
      number = seen.count (key item) + (front.map key).count (key item) + 1 := by
  constructor
  · intro member
    obtain ⟨place, within, found⟩ := List.getElem_of_mem member
    rw [length_numberedFrom] at within
    have split : items = items.take place ++ items[place] :: items.drop (place + 1) := by
      rw [List.getElem_cons_drop, List.take_append_drop]
    have stands : (numberedFrom key seen (items.take place ++ items[place] :: items.drop (place + 1)))[
        (items.take place).length]? = _ := getElem?_numberedFrom seen _ _ _
    rw [← split, List.length_take, Nat.min_eq_left within.le, List.getElem?_eq_some_iff] at stands
    obtain ⟨_, stands⟩ := stands
    obtain ⟨rfl, rfl⟩ := Prod.mk.inj (found.symm.trans stands)
    exact ⟨items.take place, items.drop (place + 1), split, rfl⟩
  · rintro ⟨front, back, rfl, rfl⟩
    exact List.mem_of_getElem? (getElem?_numberedFrom seen front item back)

/-- An item's number is past what was seen of its key. -/
theorem lt_of_mem (member : (item, number) ∈ numberedFrom key seen items) : seen.count (key item) < number := by
  obtain ⟨front, back, -, rfl⟩ := mem_numberedFrom_iff.mp member
  omega

variable [LawfulBEq κ]

theorem nodup_numberedFrom (seen : List κ) (items : List α) :
    ((numberedFrom key seen items).map fun entry => (key entry.1, entry.2)).Nodup := by
  induction items generalizing seen with
  | nil => exact List.nodup_nil
  | cons item rest ih =>
    rw [numberedFrom, List.map_cons, List.nodup_cons]
    refine ⟨fun member => ?_, ih _⟩
    obtain ⟨⟨other, number⟩, later, same⟩ := List.mem_map.mp member
    obtain ⟨sameKey, rfl⟩ := Prod.mk.inj same
    have past := lt_of_mem later
    rw [sameKey, List.count_cons_self] at past
    exact absurd past (Nat.lt_irrefl _)

theorem exists_first (member : item ∈ items) : ∃ first, key first = key item ∧ (first, 1) ∈ numbered key items := by
  have some_item : (items.find? fun other => key other == key item).isSome = true :=
    List.find?_isSome.mpr ⟨item, member, beq_self_eq_true _⟩
  obtain ⟨first, found⟩ := Option.isSome_iff_exists.mp some_item
  obtain ⟨same, front, back, split, before⟩ := List.find?_eq_some_iff_append.mp found
  have same : key first = key item := by simpa using same
  have unseen : (front.map key).count (key first) = 0 := by
    refine List.count_eq_zero.mpr fun earlier => ?_
    obtain ⟨other, inside, alike⟩ := List.mem_map.mp earlier
    have apart := before other inside
    rw [alike, same] at apart
    simp at apart
  exact ⟨first, same, mem_numberedFrom_iff.mpr ⟨front, back, split, by rw [List.count_nil, unseen]⟩⟩

end DbaBrain.Foundation.Occurrences
