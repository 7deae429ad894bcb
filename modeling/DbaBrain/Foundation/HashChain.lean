import Mathlib

/-!
# Hash chains

Rows that each store a digest of themselves and of the digest stored before
them.  Where the digest is injective, the last digest of a linked list says what
every row of it covers.
-/

namespace DbaBrain.Foundation

/-- What of a row is hashed, what the row stores, and the digest itself; the first row is hashed over `start`. -/
structure HashChain (ρ γ η : Type) where
  covered : ρ → γ
  stored : ρ → η
  digest : γ → η → η
  start : η
  digest_ne_start : ∀ content previous, digest content previous ≠ start

namespace HashChain

variable {ρ γ η : Type} (chain : HashChain ρ γ η)

/-- The digest the next row is hashed over. -/
def head (rows : List ρ) : η := (rows.getLast?.map chain.stored).getD chain.start

/-- Every row stores the digest of itself and of what is before it. -/
def Linked (rows : List ρ) : Prop :=
  ∀ front row back, rows = front ++ row :: back → chain.stored row = chain.digest (chain.covered row) (chain.head front)

def link (row : ρ) : γ × η := (chain.covered row, chain.stored row)

/-- The digest tells the rows, and what they are hashed over, apart. -/
def Injective : Prop :=
  ∀ row other previous before, chain.digest (chain.covered row) previous = chain.digest (chain.covered other) before →
    chain.covered row = chain.covered other ∧ previous = before

@[simp]
theorem head_nil : chain.head [] = chain.start := rfl

@[simp]
theorem head_concat (rows : List ρ) (row : ρ) : chain.head (rows ++ [row]) = chain.stored row := by
  simp [head]

theorem linked_nil : chain.Linked [] := by
  intro front row back split
  exact absurd split (by simp)

variable {chain}

theorem Linked.of_append {front back : List ρ} (linked : chain.Linked (front ++ back)) : chain.Linked front := by
  rintro first row rest rfl
  exact linked first row (rest ++ back) (by simp)

variable {rows : List ρ}
variable {row : ρ} {others : List ρ}

theorem linked_concat :
    chain.Linked (rows ++ [row]) ↔
      chain.Linked rows ∧ chain.stored row = chain.digest (chain.covered row) (chain.head rows) := by
  constructor
  · intro linked
    exact ⟨linked.of_append, linked rows row [] rfl⟩
  · rintro ⟨linked, last⟩ front other back split
    rcases List.eq_nil_or_concat back with rfl | ⟨rest, final, rfl⟩
    · obtain ⟨rfl, single⟩ := List.append_inj' split rfl
      obtain ⟨rfl, _⟩ := List.cons.inj single
      exact last
    · rw [List.concat_eq_append, ← List.cons_append, ← List.append_assoc] at split
      exact linked front other rest (List.append_inj' split rfl).1

theorem Linked.stored_ne (linked : chain.Linked rows) (member : row ∈ rows) : chain.stored row ≠ chain.start := by
  obtain ⟨front, back, split⟩ := List.append_of_mem member
  rw [linked front row back split]
  exact chain.digest_ne_start _ _

theorem head_eq_of_links (links : rows.map chain.link = others.map chain.link) :
    chain.head rows = chain.head others := by
  have same : rows.map chain.stored = others.map chain.stored := by
    have seconds := congrArg (List.map Prod.snd) links
    rwa [List.map_map, List.map_map] at seconds
  rw [head, head, ← List.getLast?_map, ← List.getLast?_map, same]

/-- Only the links of the rows matter. -/
theorem Linked.of_links (linked : chain.Linked rows) (links : rows.map chain.link = others.map chain.link) :
    chain.Linked others := by
  rintro front row back rfl
  rw [List.map_append] at links
  obtain ⟨first, rest, rfl, firstLinks, restLinks⟩ := List.map_eq_append_iff.mp links
  obtain ⟨twin, tail, rfl, twinLink, _⟩ := List.map_eq_cons_iff.mp restLinks
  obtain ⟨covered, stored⟩ := Prod.mk.inj twinLink
  rw [← covered, ← stored, ← head_eq_of_links firstLinks]
  exact linked first twin tail rfl

section Injective

variable (injective : chain.Injective)

include injective

variable {row other : ρ}

variable {front back : List ρ}

/-- What a row's digest was taken of is what the row covers and what is before it. -/
theorem Linked.digest_eq {previous : η} (linked : chain.Linked (front ++ row :: back))
    (stored : chain.stored row = chain.digest (chain.covered other) previous) :
    chain.covered row = chain.covered other ∧ chain.head front = previous :=
  injective _ _ _ _ ((linked front row back rfl).symm.trans stored)

theorem links_eq_of_head_eq {others : List ρ} (linked : chain.Linked rows) (linked' : chain.Linked others)
    (same : chain.head rows = chain.head others) : rows.map chain.link = others.map chain.link := by
  induction rows using List.reverseRecOn generalizing others with
  | nil =>
    rcases List.eq_nil_or_concat others with rfl | ⟨rest, last, rfl⟩
    · rfl
    · rw [List.concat_eq_append] at linked' same
      rw [head_nil, head_concat] at same
      exact absurd same.symm (linked'.stored_ne (by simp))
  | append_singleton rows row ih =>
    rcases List.eq_nil_or_concat others with rfl | ⟨rest, last, rfl⟩
    · rw [head_nil, head_concat] at same
      exact absurd same (linked.stored_ne (by simp))
    · rw [List.concat_eq_append] at linked' same ⊢
      rw [head_concat, head_concat] at same
      obtain ⟨linkedRows, stored⟩ := linked_concat.mp linked
      obtain ⟨linkedRest, stored'⟩ := linked_concat.mp linked'
      have digests := (stored.symm.trans same).trans stored'
      obtain ⟨covered, heads⟩ := injective _ _ _ _ digests
      rw [List.map_append, List.map_append, ih linkedRows linkedRest heads, List.map_singleton, List.map_singleton,
        link, link, covered, same]

/-- No two rows of a linked list store one digest. -/
theorem Linked.stored_ne_later {middle : List ρ} (linked : chain.Linked (front ++ row :: (middle ++ other :: back))) :
    chain.stored row ≠ chain.stored other := by
  intro same
  have earlier : chain.Linked (front ++ [row] ++ (middle ++ other :: back)) := by simpa using linked
  have later : chain.Linked (front ++ row :: middle ++ [other] ++ back) := by simpa using linked
  have links := links_eq_of_head_eq injective earlier.of_append later.of_append (by
    rw [head_concat, head_concat, same])
  have lengths := congrArg List.length links
  simp at lengths

theorem Linked.eq_of_stored (linked : chain.Linked rows) (member : row ∈ rows) (member' : other ∈ rows)
    (same : chain.stored row = chain.stored other) : row = other := by
  obtain ⟨front, back, rfl⟩ := List.append_of_mem member
  rcases List.mem_append.mp member' with before | rest
  · obtain ⟨first, middle, rfl⟩ := List.append_of_mem before
    rw [List.append_assoc, List.cons_append] at linked
    exact absurd same.symm (linked.stored_ne_later injective)
  · rcases List.mem_cons.mp rest with own | after
    · exact own.symm
    · obtain ⟨middle, last, rfl⟩ := List.append_of_mem after
      exact absurd same (linked.stored_ne_later injective)

end Injective

end HashChain

end DbaBrain.Foundation
