import Mathlib.Data.List.Chain

/-!
# The changes of an optional value

A value that may be absent is seen again and again.  From one sight to the next it can
appear, vanish or differ.  `Happens` says that one of these happened somewhere in a list of
sights.

`net_iff` compares what happened on the way with the change from the first to the last
sight: the two are the same where the value moved once at most, and where it was there all
the time and ended as another one.
-/

namespace DevRepro.Lib.Changes

variable {α : Type} {a b first last : Option α} {seen : List (Option α)}
  {R : Option α → Option α → Prop}

def Appears (a b : Option α) : Prop := a = none ∧ b ≠ none

def Vanishes (a b : Option α) : Prop := a ≠ none ∧ b = none

def Differs (a b : Option α) : Prop := a ≠ none ∧ b ≠ none ∧ a ≠ b

/-- A move is of one kind. -/
theorem ne_iff : a ≠ b ↔ Appears a b ∨ Vanishes a b ∨ Differs a b := by
  unfold Appears Vanishes Differs
  cases a <;> cases b <;> simp

/-! ## Sights -/

/-- Somewhere in the list `R` leads from one sight to the next. -/
def Happens (R : Option α → Option α → Prop) (seen : List (Option α)) : Prop :=
  ∃ before a b after, seen = before ++ a :: b :: after ∧ R a b

theorem not_happens_iff : ¬Happens R seen ↔ seen.IsChain fun a b => ¬R a b := by
  rw [List.isChain_iff_forall_rel_of_append_cons_cons]
  unfold Happens
  constructor
  · intro h a b before after heq hr
    exact h ⟨before, a, b, after, heq, hr⟩
  · rintro h ⟨before, a, b, after, heq, hr⟩
    exact h heq hr

theorem not_happens_singleton : ¬Happens R [a] :=
  not_happens_iff.mpr (List.isChain_singleton a)

theorem happens_append (hlast : seen.getLast? = some last) :
    Happens R (seen ++ [a]) ↔ Happens R seen ∨ R last a := by
  rw [← not_iff_not, not_or, not_happens_iff, not_happens_iff, List.isChain_append, hlast]
  simp

/-- A list whose neighbours are equal has one value. -/
theorem eq_of_chain (h : seen.IsChain (· = ·)) (hfirst : seen.head? = some first) :
    ∀ a ∈ seen, a = first := by
  induction seen generalizing first with
  | nil => cases hfirst
  | cons b rest ih =>
    cases hfirst
    intro a ha
    rcases List.mem_cons.mp ha with rfl | ha
    · rfl
    · cases rest with
      | nil => exact absurd ha List.not_mem_nil
      | cons c rest =>
        rw [List.isChain_cons_cons] at h
        exact (ih h.2 rfl a ha).trans h.1.symm

theorem chain_eq (happears : ¬Happens Appears seen) (hvanishes : ¬Happens Vanishes seen)
    (hdiffers : ¬Happens Differs seen) : seen.IsChain (· = ·) := by
  rw [List.isChain_iff_forall_rel_of_append_cons_cons]
  intro a b before after heq
  by_contra hne
  rcases ne_iff.mp hne with h | h | h
  · exact happears ⟨before, a, b, after, heq, h⟩
  · exact hvanishes ⟨before, a, b, after, heq, h⟩
  · exact hdiffers ⟨before, a, b, after, heq, h⟩

/-- A value that is another one in the end moved somewhere. -/
theorem happens_of_ne (hfirst : seen.head? = some first) (hlast : seen.getLast? = some last)
    (hne : first ≠ last) : Happens Appears seen ∨ Happens Vanishes seen ∨ Happens Differs seen := by
  by_contra h
  simp only [not_or] at h
  have hall := eq_of_chain (chain_eq h.1 h.2.1 h.2.2) hfirst
  exact hne (hall last (List.mem_of_getLast? hlast)).symm

/-! ## One move -/

/-- From a sight that does not move on, nothing moves. -/
theorem chain_eq_of_still {P : Option α → Prop} (h : seen.IsChain fun a b => a = b ∨ P a ∧ ¬P b)
    (hfirst : seen.head? = some first) (hstill : ¬P first) : seen.IsChain (· = ·) := by
  induction seen generalizing first with
  | nil => exact List.isChain_nil
  | cons b rest ih =>
    cases hfirst
    cases rest with
    | nil => exact List.isChain_singleton b
    | cons c rest =>
      rw [List.isChain_cons_cons] at h ⊢
      rcases h.1 with rfl | hmove
      · exact ⟨rfl, ih h.2 rfl hstill⟩
      · exact absurd hmove.1 hstill

/-- Where a value can move to one that does not move on, it moves once at most. -/
theorem one_move {P : Option α → Prop} (h : seen.IsChain fun a b => a = b ∨ P a ∧ ¬P b)
    (hfirst : seen.head? = some first) (hlast : seen.getLast? = some last) :
    ∃ m n, seen = List.replicate m first ++ List.replicate n last := by
  induction seen generalizing first with
  | nil => cases hfirst
  | cons b rest ih =>
    cases hfirst
    cases rest with
    | nil => exact ⟨1, 0, rfl⟩
    | cons c rest =>
      rw [List.getLast?_cons_cons] at hlast
      rw [List.isChain_cons_cons] at h
      rcases h.1 with rfl | hmove
      · obtain ⟨m, n, heq⟩ := ih h.2 rfl hlast
        exact ⟨m + 1, n, by rw [heq, List.replicate_succ, List.cons_append]⟩
      · have hall := eq_of_chain (chain_eq_of_still h.2 rfl hmove.2) rfl
        have hend := hall last (List.mem_of_getLast? hlast)
        refine ⟨1, (c :: rest).length, ?_⟩
        rw [hend, ← List.eq_replicate_iff.mpr ⟨rfl, hall⟩]
        rfl

/-- With one move at most, what happened is that move. -/
theorem happens_replicate (hirrefl : ∀ a, ¬R a a) {m n : ℕ}
    (hseen : seen = List.replicate m first ++ List.replicate n last)
    (hfirst : seen.head? = some first) (hlast : seen.getLast? = some last) :
    Happens R seen ↔ R first last := by
  rw [← not_iff_not, not_happens_iff, hseen, List.isChain_append]
  have hsteady : ∀ k (a : Option α), (List.replicate k a).IsChain fun a b => ¬R a b := fun k a =>
    List.isChain_replicate_of_rel k (hirrefl a)
  rw [and_iff_right (hsteady m first), and_iff_right (hsteady n last)]
  cases m with
  | zero =>
    have heq : first = last := by
      rw [hseen, List.replicate_zero, List.nil_append] at hfirst
      exact List.eq_of_mem_replicate (List.mem_of_head? hfirst)
    subst heq
    exact iff_of_true (fun a ha => by simp at ha) (hirrefl first)
  | succ m =>
    cases n with
    | zero =>
      have heq : last = first := by
        rw [hseen, List.replicate_zero, List.append_nil] at hlast
        exact List.eq_of_mem_replicate (List.mem_of_getLast? hlast)
      subst heq
      exact iff_of_true (fun _ _ b hb => by simp at hb) (hirrefl last)
    | succ n => simp [List.getLast?_replicate, List.head?_replicate]

/-! ## The net change -/

/-- What happened on the way is the change from the first sight to the last. -/
def Net (seen : List (Option α)) (first last : Option α) : Prop :=
  (Happens Appears seen ↔ Appears first last) ∧ (Happens Vanishes seen ↔ Vanishes first last) ∧
    (Happens Differs seen ↔ Differs first last)

/-- The value moved once at most, or it was there all the time and ended as another one. -/
def Direct (seen : List (Option α)) (first last : Option α) : Prop :=
  (∃ m n, seen = List.replicate m first ++ List.replicate n last) ∨ (none ∉ seen ∧ first ≠ last)

theorem net_of_direct (hfirst : seen.head? = some first) (hlast : seen.getLast? = some last)
    (h : Direct seen first last) : Net seen first last := by
  rcases h with ⟨m, n, hseen⟩ | ⟨hthere, hne⟩
  · exact ⟨happens_replicate (fun _ h => h.2 h.1) hseen hfirst hlast,
      happens_replicate (fun _ h => h.1 h.2) hseen hfirst hlast,
      happens_replicate (fun _ h => h.2.2 rfl) hseen hfirst hlast⟩
  · have hsome : ∀ a ∈ seen, a ≠ none := fun a ha heq => hthere (heq ▸ ha)
    have happears : ¬Happens Appears seen := by
      rintro ⟨before, a, b, after, rfl, h⟩
      exact hsome a (by simp) h.1
    have hvanishes : ¬Happens Vanishes seen := by
      rintro ⟨before, a, b, after, rfl, h⟩
      exact hsome b (by simp) h.2
    have hfirst' := hsome first (List.mem_of_head? hfirst)
    have hlast' := hsome last (List.mem_of_getLast? hlast)
    refine ⟨iff_of_false happears fun h => hfirst' h.1, iff_of_false hvanishes fun h => hlast' h.2, ?_⟩
    refine iff_of_true ?_ ⟨hfirst', hlast', hne⟩
    exact ((happens_of_ne hfirst hlast hne).resolve_left happears).resolve_left hvanishes

/-- A value that is there and never vanishes is there all the time. -/
theorem none_not_mem (h : ¬Happens Vanishes seen) (hfirst : seen.head? = some first)
    (hthere : first ≠ none) : none ∉ seen := by
  rw [not_happens_iff] at h
  induction seen generalizing first with
  | nil => exact List.not_mem_nil
  | cons b rest ih =>
    cases hfirst
    rw [List.mem_cons, not_or]
    refine ⟨hthere.symm, ?_⟩
    cases rest with
    | nil => exact List.not_mem_nil
    | cons c rest =>
      rw [List.isChain_cons_cons] at h
      exact ih h.2 rfl fun hnone => h.1 ⟨hthere, hnone⟩

/-- Where only one kind of move happens, and no move of it comes behind another, there is
one at most. -/
theorem one_move_of_only {P : Option α → Prop}
    (honly : ∀ before a b after, seen = before ++ a :: b :: after → a ≠ b → P a ∧ ¬P b)
    (hfirst : seen.head? = some first) (hlast : seen.getLast? = some last) :
    ∃ m n, seen = List.replicate m first ++ List.replicate n last := by
  refine one_move (P := P) ?_ hfirst hlast
  rw [List.isChain_iff_forall_rel_of_append_cons_cons]
  intro a b before after heq
  by_cases hab : a = b
  · exact Or.inl hab
  · exact Or.inr (honly before a b after heq hab)

theorem direct_of_net (hfirst : seen.head? = some first) (hlast : seen.getLast? = some last)
    (h : Net seen first last) : Direct seen first last := by
  obtain ⟨happears, hvanishes, hdiffers⟩ := h
  by_cases heq : first = last
  · subst heq
    have hall := eq_of_chain (chain_eq (fun h => (happears.mp h).2 (happears.mp h).1)
      (fun h => (hvanishes.mp h).1 (hvanishes.mp h).2) (fun h => (hdiffers.mp h).2.2 rfl)) hfirst
    refine Or.inl ⟨seen.length, 0, ?_⟩
    rw [List.replicate_zero, List.append_nil]
    exact List.eq_replicate_iff.mpr ⟨rfl, hall⟩
  · by_cases hbefore : first = none
    · -- it was absent, so nothing vanished and nothing differed
      refine Or.inl (one_move_of_only (P := fun a => a = none) ?_ hfirst hlast)
      intro before a b after hsplit hab
      rcases ne_iff.mp hab with hmove | hmove | hmove
      · exact hmove
      · exact absurd hbefore (hvanishes.mp ⟨before, a, b, after, hsplit, hmove⟩).1
      · exact absurd hbefore (hdiffers.mp ⟨before, a, b, after, hsplit, hmove⟩).1
    · by_cases hafter : last = none
      · -- it is absent in the end, so nothing appeared and nothing differed
        refine Or.inl (one_move_of_only (P := fun a => a ≠ none) ?_ hfirst hlast)
        intro before a b after hsplit hab
        rcases ne_iff.mp hab with hmove | hmove | hmove
        · exact absurd hafter (happears.mp ⟨before, a, b, after, hsplit, hmove⟩).2
        · exact ⟨hmove.1, not_not_intro hmove.2⟩
        · exact absurd hafter (hdiffers.mp ⟨before, a, b, after, hsplit, hmove⟩).2.1
      · exact Or.inr ⟨none_not_mem (fun h => hafter (hvanishes.mp h).2) hfirst hbefore, heq⟩

/-- What happened is the net change exactly for a value that went there directly. -/
theorem net_iff (hfirst : seen.head? = some first) (hlast : seen.getLast? = some last) :
    Net seen first last ↔ Direct seen first last :=
  ⟨direct_of_net hfirst hlast, net_of_direct hfirst hlast⟩

end DevRepro.Lib.Changes
