import Mathlib

/-!
# Tables with automatic keys

A table is a list of rows in the order of insertion, and the greatest key that
it ever gave out.  An insertion takes the next key, so a key is never given out
twice, also when its row is gone.

`Keyed` is the invariant: keys are distinct, and no key is beyond the greatest
one.  The operations keep it, and under it a key leads to one row.
-/

namespace DevRepro.Lib

variable {ρ : Type}

structure Table (ρ : Type) where
  rows : List ρ
  seq : Nat

/-- The table without rows, before its first insertion. -/
def Table.empty : Table ρ := ⟨[], 0⟩

/-- The table with a new row, which is made from its key. -/
def Table.insert (t : Table ρ) (row : Nat → ρ) : Table ρ := ⟨t.rows ++ [row (t.seq + 1)], t.seq + 1⟩

/-- The table with a change of some rows. -/
def Table.update (t : Table ρ) (which : ρ → Bool) (change : ρ → ρ) : Table ρ :=
  ⟨t.rows.map fun row => if which row then change row else row, t.seq⟩

/-- The table without some rows. -/
def Table.delete (t : Table ρ) (which : ρ → Bool) : Table ρ :=
  ⟨t.rows.filter fun row => !which row, t.seq⟩

/-- Keys are distinct, and were given out. -/
structure Keyed (key : ρ → Nat) (t : Table ρ) : Prop where
  distinct : (t.rows.map key).Nodup
  given : ∀ row ∈ t.rows, key row ≤ t.seq

variable {key : ρ → Nat} {t : Table ρ}

theorem keyed_empty : Keyed key (Table.empty : Table ρ) := ⟨List.nodup_nil, by simp [Table.empty]⟩

theorem Keyed.insert (h : Keyed key t) {row : Nat → ρ} (hrow : key (row (t.seq + 1)) = t.seq + 1) :
    Keyed key (t.insert row) := by
  constructor
  · rw [Table.insert, List.map_append, List.nodup_append]
    refine ⟨h.distinct, by simp, fun a ha b hb heq => ?_⟩
    rcases List.mem_map.mp ha with ⟨old, hold, rfl⟩
    rw [List.map_singleton, List.mem_singleton, hrow] at hb
    have := h.given old hold
    omega
  · intro other hother
    rcases List.mem_append.mp hother with hold | hnew
    · exact Nat.le_succ_of_le (h.given other hold)
    · rw [List.mem_singleton.mp hnew, hrow]
      exact le_refl _

theorem Keyed.update (h : Keyed key t) {which : ρ → Bool} {change : ρ → ρ}
    (hchange : ∀ row, key (change row) = key row) : Keyed key (t.update which change) := by
  have hkey : ∀ row, key (if which row then change row else row) = key row := by
    intro row
    split_ifs
    · exact hchange row
    · rfl
  constructor
  · rw [Table.update, List.map_map]
    have hsame : (key ∘ fun row => if which row then change row else row) = key := funext hkey
    rw [hsame]
    exact h.distinct
  · intro row hrow
    rcases List.mem_map.mp hrow with ⟨old, hold, rfl⟩
    rw [hkey]
    exact h.given old hold

theorem Keyed.delete (h : Keyed key t) (which : ρ → Bool) : Keyed key (t.delete which) :=
  ⟨h.distinct.sublist (List.filter_sublist.map key),
    fun row hrow => h.given row (List.mem_of_mem_filter hrow)⟩

/-- Rows with one key are one row. -/
theorem Keyed.row_unique (h : Keyed key t) {row other : ρ} (hrow : row ∈ t.rows)
    (hother : other ∈ t.rows) (heq : key row = key other) : row = other :=
  List.inj_on_of_nodup_map h.distinct hrow hother heq

end DevRepro.Lib
