import DbaBrain.Foundation.Sql

/-!
# Uniqueness rules

A rule looks at the rows its condition holds of, and refuses two of them that
are equal in every part of its key.  A table accepts rows no two of which are
refused, so what two families of rules accept is settled by pairs of rows.
-/

namespace DbaBrain.Foundation.Uniqueness

open DbaBrain.Foundation.Sql

/-- A unique index: where it looks, and what it compares.  A NULL equals nothing. -/
structure Rule (α : Type) where
  condition : α → Truth
  key : List (α → Value)

section Rules

variable {α ι : Type} {rules other : List (Rule α)} {first second : α}

def Rule.Refuses (rule : Rule α) (first second : α) : Prop :=
  rule.condition first = some true ∧ rule.condition second = some true ∧
    ∀ part ∈ rule.key, (part first).equal (part second) = some true

/-- Some rule refuses the two rows. -/
def Refused (rules : List (Rule α)) (first second : α) : Prop := ∃ rule ∈ rules, rule.Refuses first second

def Accepts (rules : List (Rule α)) (rows : List α) : Prop :=
  rows.Pairwise fun first second => ¬ Refused rules first second

@[simp]
theorem accepts_nil : Accepts rules [] := List.Pairwise.nil

@[simp]
theorem accepts_pair : Accepts rules [first, second] ↔ ¬ Refused rules first second := by
  simp [Accepts]

theorem Accepts.congr {rows : List α} (same : ∀ first second, Refused rules first second ↔ Refused other first second) :
    Accepts rules rows ↔ Accepts other rows := by
  unfold Accepts
  simp only [same]

theorem refused_append : Refused (rules ++ other) first second ↔ Refused rules first second ∨ Refused other first second := by
  simp only [Refused, List.mem_append, or_and_right, exists_or]

/-- Two stores accept the same rows exactly when they refuse the same pairs, table by table. -/
theorem accept_same_iff [DecidableEq ι] {families others : ι → List (Rule α)} :
    (∀ rows : ι → List α, (∀ table, Accepts (families table) (rows table)) ↔
        ∀ table, Accepts (others table) (rows table)) ↔
      ∀ table first second, Refused (families table) first second ↔ Refused (others table) first second := by
  constructor
  · intro same table first second
    let rows : ι → List α := fun name => if name = table then [first, second] else []
    have alone : ∀ rules : ι → List (Rule α),
        (∀ name, Accepts (rules name) (rows name)) ↔ ¬ Refused (rules table) first second := by
      intro rules
      rw [← accepts_pair]
      constructor
      · intro all
        simpa [rows] using all table
      · intro pair name
        by_cases here : name = table
        · subst here
          simpa [rows] using pair
        · simp [rows, here]
    exact not_iff_not.mp ((alone families).symm.trans ((same rows).trans (alone others)))
  · intro same rows
    exact forall_congr' fun table => Accepts.congr (same table)

end Rules

end DbaBrain.Foundation.Uniqueness
