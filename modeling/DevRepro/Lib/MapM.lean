import Mathlib.Data.List.Forall2

/-!
# Lists read element by element

`mapM` with a reader that may refuse an element: the list is read where each element is,
and each reading is that of an element.
-/

namespace DevRepro.Lib

variable {α β γ : Type*} {f : α → Option β} {l : List α} {ys : List β}

theorem mapM_eq_some : l.mapM f = some ys ↔ List.Forall₂ (fun x y => f x = some y) l ys := by
  induction l generalizing ys with
  | nil =>
    rw [List.forall₂_nil_left_iff]
    exact ⟨fun h => (Option.some_inj.mp h).symm, fun h => h ▸ rfl⟩
  | cons x l ih =>
    rw [List.mapM_cons, List.forall₂_cons_left_iff]
    simp only [← ih]
    constructor
    · intro h
      obtain ⟨y, hy, h⟩ := Option.bind_eq_some_iff.mp h
      obtain ⟨rest, hrest, h⟩ := Option.bind_eq_some_iff.mp h
      exact ⟨y, rest, hy, hrest, (Option.some_inj.mp h).symm⟩
    · rintro ⟨y, rest, hy, hrest, rfl⟩
      rw [hy, hrest]
      rfl

/-- What stands in the second list stands there for an element of the first. -/
theorem exists_of_forall₂ {r : α → β → Prop} (h : List.Forall₂ r l ys) {y : β} (hy : y ∈ ys) :
    ∃ x ∈ l, r x y := by
  induction h with
  | nil => cases hy
  | cons hxy _ ih =>
    rcases List.mem_cons.mp hy with rfl | hy
    · exact ⟨_, List.mem_cons_self, hxy⟩
    · obtain ⟨x, hx, hxy⟩ := ih hy
      exact ⟨x, List.mem_cons_of_mem _ hx, hxy⟩

/-- An order of the first list is one of the second. -/
theorem pairwise_of_forall₂ {r : α → β → Prop} {p : α → α → Prop} {q : β → β → Prop}
    (h : List.Forall₂ r l ys) (hl : l.Pairwise p)
    (hpq : ∀ x x' y y', r x y → r x' y' → p x x' → q y y') : ys.Pairwise q := by
  induction h with
  | nil => exact .nil
  | cons hxy hrest ih =>
    rw [List.pairwise_cons] at hl ⊢
    refine ⟨fun y' hy' => ?_, ih hl.2⟩
    obtain ⟨x', hx', hxy'⟩ := exists_of_forall₂ hrest hy'
    exact hpq _ _ _ _ hxy hxy' (hl.1 x' hx')

/-- A list whose elements all stand in a relation stands in it with some list. -/
theorem exists_forall₂ {r : α → β → Prop} (h : ∀ x ∈ l, ∃ y, r x y) :
    ∃ ys, List.Forall₂ r l ys := by
  induction l with
  | nil => exact ⟨[], .nil⟩
  | cons x l ih =>
    rw [List.forall_mem_cons] at h
    obtain ⟨y, hy⟩ := h.1
    obtain ⟨ys, hys⟩ := ih h.2
    exact ⟨y :: ys, .cons hy hys⟩

theorem exists_of_mapM {x : α} (h : l.mapM f = some ys) (hx : x ∈ l) : ∃ y ∈ ys, f x = some y := by
  have hall := mapM_eq_some.mp h
  clear h
  induction hall with
  | nil => cases hx
  | cons hy _ ih =>
    rcases List.mem_cons.mp hx with rfl | hx
    · exact ⟨_, List.mem_cons_self, hy⟩
    · obtain ⟨y, hmem, hy⟩ := ih hx
      exact ⟨y, List.mem_cons_of_mem _ hmem, hy⟩

theorem exists_of_mem_mapM {y : β} (h : l.mapM f = some ys) (hy : y ∈ ys) :
    ∃ x ∈ l, f x = some y :=
  exists_of_forall₂ (mapM_eq_some.mp h) hy

/-- A list whose elements are all read is read as the list of these. -/
theorem mapM_eq_map {g : α → β} (h : ∀ x ∈ l, f x = some (g x)) : l.mapM f = some (l.map g) := by
  rw [mapM_eq_some, List.forall₂_map_right_iff, List.forall₂_same]
  exact h

/-- Where two readers differ in the form of what they read, so do the lists. -/
theorem mapM_map {g : α → Option γ} {m : β → γ} (h : ∀ x, g x = (f x).map m) (l : List α) :
    l.mapM g = (l.mapM f).map (·.map m) := by
  induction l with
  | nil => rfl
  | cons x l ih =>
    rw [List.mapM_cons, List.mapM_cons, ih, h]
    cases f x with
    | none => rfl
    | some y =>
      cases l.mapM f with
      | none => rfl
      | some ys => rfl

/-! ## Readers that fail -/

theorem exists_of_mem_mapM_ok {ε : Type*} {g : α → Except ε β} {y : β} (h : l.mapM g = .ok ys)
    (hy : y ∈ ys) : ∃ x ∈ l, g x = .ok y := by
  induction l generalizing ys with
  | nil =>
    cases h
    cases hy
  | cons x l ih =>
    rw [List.mapM_cons] at h
    cases hx : g x with
    | error e =>
      rw [hx] at h
      cases h
    | ok first =>
      cases hrest : l.mapM g with
      | error e =>
        rw [hx, hrest] at h
        cases h
      | ok rest =>
        rw [hx, hrest] at h
        cases h
        rcases List.mem_cons.mp hy with rfl | hy
        · exact ⟨x, List.mem_cons_self, hx⟩
        · obtain ⟨x', hmem, hx'⟩ := ih hrest hy
          exact ⟨x', List.mem_cons_of_mem _ hmem, hx'⟩

theorem mapM_eq_ok {ε : Type*} {g : α → Except ε β} :
    l.mapM g = .ok ys ↔ List.Forall₂ (fun x y => g x = .ok y) l ys := by
  induction l generalizing ys with
  | nil =>
    rw [List.mapM_nil, List.forall₂_nil_left_iff]
    constructor
    · intro h
      cases h
      rfl
    · intro h
      rw [h]
      rfl
  | cons x l ih =>
    rw [List.mapM_cons, List.forall₂_cons_left_iff]
    constructor
    · intro h
      cases hx : g x with
      | error e =>
        rw [hx] at h
        cases h
      | ok first =>
        cases hrest : l.mapM g with
        | error e =>
          rw [hx, hrest] at h
          cases h
        | ok rest =>
          rw [hx, hrest] at h
          cases h
          exact ⟨first, rest, rfl, ih.mp hrest, rfl⟩
    · intro ⟨first, rest, hx, hrest, hys⟩
      rw [hx, ih.mpr hrest, hys]
      rfl

/-- All elements are read, as values of one kind, exactly when each of them is. -/
theorem mapM_ok_forall_iff {ε : Type*} {g : α → Except ε β} {P : β → Prop} :
    (∃ ys, l.mapM g = .ok ys ∧ ∀ y ∈ ys, P y) ↔ ∀ x ∈ l, ∃ y, g x = .ok y ∧ P y := by
  constructor
  · rintro ⟨ys, hys, hall⟩
    have hread := mapM_eq_ok.mp hys
    clear hys
    induction hread with
    | nil => exact fun x hx => absurd hx List.not_mem_nil
    | cons hxy _ ih =>
      refine List.forall_mem_cons.mpr ⟨⟨_, hxy, hall _ List.mem_cons_self⟩, ?_⟩
      exact ih fun y hy => hall y (List.mem_cons_of_mem _ hy)
  · intro h
    obtain ⟨ys, hys⟩ := exists_forall₂ h
    refine ⟨ys, mapM_eq_ok.mpr (hys.imp fun x y hxy => hxy.1), fun y hy => ?_⟩
    obtain ⟨x, -, hxy⟩ := exists_of_forall₂ hys hy
    exact hxy.2

end DevRepro.Lib
