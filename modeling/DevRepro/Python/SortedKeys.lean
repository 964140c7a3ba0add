import DevRepro.Core.VersionOrder

/-!
# Items in the order of their keys

`sorted(d.items())` forgets the order in which the keys came: two dictionaries with the same
items give one list (`sortByKey_eq_of_perm`).
-/

namespace DevRepro.Python

variable {α : Type}

theorem insertByKey_perm (item : Str × α) (items : List (Str × α)) :
    (insertByKey item items).Perm (item :: items) := by
  induction items with
  | nil => exact List.Perm.refl _
  | cons head rest ih =>
    rw [insertByKey]
    split_ifs
    · exact List.Perm.refl _
    · exact (ih.cons head).trans (List.Perm.swap item head rest)

theorem sortByKey_perm (items : List (Str × α)) : (sortByKey items).Perm items := by
  induction items with
  | nil => exact List.Perm.refl _
  | cons head rest ih => exact (insertByKey_perm head (sortByKey rest)).trans (ih.cons head)

theorem insertByKey_pairwise (item : Str × α) {items : List (Str × α)}
    (h : items.Pairwise fun a b => a.1 ≤ b.1) :
    (insertByKey item items).Pairwise fun a b => a.1 ≤ b.1 := by
  induction items with
  | nil => exact List.pairwise_singleton _ item
  | cons head rest ih =>
    obtain ⟨hhead, hrest⟩ := List.pairwise_cons.mp h
    rw [insertByKey]
    split_ifs with hle
    · rw [Core.strLe_iff] at hle
      refine List.pairwise_cons.mpr ⟨fun b hb => ?_, h⟩
      rcases List.mem_cons.mp hb with rfl | hb
      · exact hle
      · exact hle.trans (hhead b hb)
    · rw [Core.strLe_iff, not_le] at hle
      refine List.pairwise_cons.mpr ⟨fun b hb => ?_, ih hrest⟩
      rcases List.mem_cons.mp ((insertByKey_perm item rest).mem_iff.mp hb) with rfl | hb
      · exact hle.le
      · exact hhead b hb

theorem sortByKey_pairwise (items : List (Str × α)) :
    (sortByKey items).Pairwise fun a b => a.1 ≤ b.1 := by
  induction items with
  | nil => exact List.Pairwise.nil
  | cons head rest ih => exact insertByKey_pairwise head ih

/-- The order in which the keys came is forgotten. -/
theorem sortByKey_eq_of_perm {items others : List (Str × α)} (hnodup : (items.map Prod.fst).Nodup)
    (h : items.Perm others) : sortByKey items = sortByKey others := by
  have hperm : (sortByKey items).Perm (sortByKey others) :=
    (sortByKey_perm items).trans (h.trans (sortByKey_perm others).symm)
  refine hperm.eq_of_pairwise (fun a b ha hb hab hba => ?_) (sortByKey_pairwise items)
    (sortByKey_pairwise others)
  have hmem : ∀ c, c ∈ sortByKey items → c ∈ items := fun c => (sortByKey_perm items).mem_iff.mp
  exact List.inj_on_of_nodup_map hnodup (hmem a ha) (hmem b (hperm.mem_iff.mpr hb)) (le_antisymm hab hba)

theorem sortByKey_nodup {items : List (Str × α)} (h : (items.map Prod.fst).Nodup) :
    ((sortByKey items).map Prod.fst).Nodup :=
  ((sortByKey_perm items).map Prod.fst).nodup_iff.mpr h

end DevRepro.Python
