import Mathlib.Data.List.Sort
import Mathlib.Order.Nat

/-!
# Tables with a fixed order of their rows

A query without an `ORDER BY` lists the rows as they lie in the table.  Here each row has a place,
rows of one table have different places, and a table is listed in the order of the places: what a
query lists then depends on which rows it selects only (`filter_rows_eq`).
-/

namespace Omniscience

/-- A table whose rows lie at different places, in their order. -/
structure Table {R : Type*} (place : R → ℕ) where
  rows : List R
  sorted : rows.Pairwise fun a b => place a < place b

namespace Table

variable {R : Type*} {place : R → ℕ}

/-- The rows of a table that satisfy a condition. -/
def filter (p : R → Bool) (t : Table place) : Table place := ⟨t.rows.filter p, t.sorted.filter p⟩

@[simp] theorem rows_filter (p : R → Bool) (t : Table place) :
    (t.filter p).rows = t.rows.filter p := rfl

theorem eq_of_place_eq (t : Table place) {a b : R} (ha : a ∈ t.rows) (hb : b ∈ t.rows)
    (h : place a = place b) : a = b := by
  have hnodup : (t.rows.map place).Nodup := List.pairwise_map.2 (t.sorted.imp fun hlt => hlt.ne)
  exact List.inj_on_of_nodup_map hnodup ha hb h

theorem rows_eq_of_mem_iff {t t' : Table place} (h : ∀ a, a ∈ t.rows ↔ a ∈ t'.rows) :
    t.rows = t'.rows := by
  have hirrefl : Std.Irrefl fun a b : R => place a < place b := ⟨fun a => lt_irrefl (place a)⟩
  have hantisymm : Std.Antisymm fun a b : R => place a < place b :=
    ⟨fun _ _ hab hba => absurd hab (lt_asymm hba)⟩
  exact t.sorted.eq_of_mem_iff t'.sorted h

theorem filter_eq {t t' : Table place} {p q : R → Bool}
    (h : ∀ a, a ∈ t.rows ∧ p a = true ↔ a ∈ t'.rows ∧ q a = true) : t.filter p = t'.filter q := by
  have hrows : (t.filter p).rows = (t'.filter q).rows :=
    rows_eq_of_mem_iff fun a => by simpa using h a
  cases hp : t.filter p
  cases hq : t'.filter q
  simp_all

end Table

end Omniscience
