import Mathlib.Data.List.Nodup
import Mathlib.Data.List.Infix

/-!
# Lists to which the new is added

A loop that appends a value unless the list has it already.  Two lists can change places in
such a loop when one of them begins with the other.
-/

namespace DevRepro.Lib

variable {α : Type} [DecidableEq α]

/-- `if value not in values: values.append(value)` -/
def addMissing (values : List α) (value : α) : List α :=
  if value ∈ values then values else values ++ [value]

/-- The loop, over some more values. -/
def addAll (values more : List α) : List α := more.foldl addMissing values

theorem addAll_append (values more others : List α) :
    addAll values (more ++ others) = addAll (addAll values more) others := List.foldl_append

theorem mem_addMissing {values : List α} {value a : α} :
    a ∈ addMissing values value ↔ a ∈ values ∨ a = value := by
  rw [addMissing]
  split_ifs with h
  · exact ⟨Or.inl, fun ha => ha.elim id fun heq => heq ▸ h⟩
  · rw [List.mem_append, List.mem_singleton]

theorem mem_addAll {values more : List α} {a : α} :
    a ∈ addAll values more ↔ a ∈ values ∨ a ∈ more := by
  induction more generalizing values with
  | nil => simp [addAll]
  | cons b more ih =>
    show a ∈ addAll (addMissing values b) more ↔ _
    rw [ih, mem_addMissing, List.mem_cons, or_assoc]

/-- The list itself comes first. -/
theorem addAll_isStart (values more : List α) : values <+: addAll values more := by
  induction more generalizing values with
  | nil => exact List.prefix_rfl
  | cons b more ih =>
    refine List.IsPrefix.trans ?_ (ih (addMissing values b))
    rw [addMissing]
    split_ifs
    · exact List.prefix_rfl
    · exact List.prefix_append _ _

theorem nodup_addAll {values : List α} (h : values.Nodup) (more : List α) :
    (addAll values more).Nodup := by
  induction more generalizing values with
  | nil => exact h
  | cons b more ih =>
    refine ih ?_
    rw [addMissing]
    split_ifs with hb
    · exact h
    · rw [List.nodup_append]
      exact ⟨h, List.nodup_singleton b, fun a ha c hc heq => hb (List.mem_singleton.mp hc ▸ heq ▸ ha)⟩

/-- Nothing is added when all is there. -/
theorem addAll_eq_self_iff {values more : List α} :
    addAll values more = values ↔ ∀ a ∈ more, a ∈ values := by
  constructor
  · intro h a ha
    rw [← h]
    exact mem_addAll.mpr (Or.inr ha)
  · intro h
    induction more with
    | nil => rfl
    | cons b more ih =>
      show addAll (addMissing values b) more = values
      rw [addMissing, if_pos (h b List.mem_cons_self)]
      exact ih fun a ha => h a (List.mem_cons_of_mem _ ha)

/-- What is new and without repetition is appended as it is. -/
theorem addAll_eq_append {values more : List α} (h : more.Nodup) (hnew : ∀ a ∈ more, a ∉ values) :
    addAll values more = values ++ more := by
  induction more generalizing values with
  | nil => exact (List.append_nil values).symm
  | cons b more ih =>
    rw [List.nodup_cons] at h
    show addAll (addMissing values b) more = values ++ b :: more
    rw [addMissing, if_neg (hnew b List.mem_cons_self), ih h.2, List.append_assoc, List.singleton_append]
    intro a ha hin
    rcases List.mem_append.mp hin with hin | hin
    · exact hnew a (List.mem_cons_of_mem _ ha) hin
    · exact h.1 (List.mem_singleton.mp hin ▸ ha)

theorem addAll_nil {more : List α} (h : more.Nodup) : addAll [] more = more := by
  rw [addAll_eq_append h fun _ _ => List.not_mem_nil, List.nil_append]

/-- To add the values of a list is to add them without repetition. -/
theorem addAll_addAll_nil (values more : List α) :
    addAll values (addAll [] more) = addAll values more := by
  induction more using List.reverseRecOn with
  | nil => rfl
  | append_singleton more b ih =>
    rw [addAll_append, addAll_append]
    show addAll values (addMissing (addAll [] more) b) = addMissing (addAll values more) b
    rw [addMissing]
    split_ifs with hb
    · rw [ih, addMissing, if_pos]
      rw [mem_addAll] at hb ⊢
      exact Or.inr (hb.resolve_left List.not_mem_nil)
    · rw [addAll_append, ih]
      rfl

/-- A list without repetition, of which the first is a start, is what the first grows to. -/
theorem addAll_of_isStart {values more : List α} (h : more.Nodup) (hstart : values <+: more) :
    addAll values more = more := by
  obtain ⟨rest, rfl⟩ := hstart
  rw [List.nodup_append] at h
  rw [addAll_append, addAll_eq_self_iff.mpr fun a ha => ha]
  exact addAll_eq_append h.2.1 fun a ha hin => h.2.2 a hin a ha rfl

theorem addAll_of_isStart' {values more : List α} (hstart : more <+: values) :
    addAll values more = values :=
  addAll_eq_self_iff.mpr fun _ ha => hstart.subset ha

/-- Two lists without repetition can change places when one begins with the other. -/
theorem addAll_comm_iff {values more : List α} (h : values.Nodup) (h' : more.Nodup) :
    addAll more values = addAll values more ↔ values <+: more ∨ more <+: values := by
  constructor
  · intro heq
    have hmore := addAll_isStart more values
    rw [heq] at hmore
    exact List.prefix_or_prefix_of_prefix (addAll_isStart values more) hmore
  · rintro (hstart | hstart)
    · rw [addAll_of_isStart h' hstart, addAll_of_isStart' hstart]
    · rw [addAll_of_isStart h hstart, addAll_of_isStart' hstart]

/-- A list without repetition, when more is added to it. -/
theorem nodup_of_addAll {values more : List α} (h : (addAll values more).Nodup) : values.Nodup :=
  h.sublist (addAll_isStart values more).sublist

/-! ## A list among others -/

section Among

variable {values front back all : List α}

/-- A list in the place of what was before it is as good as one to which that is added, when it
has all of it. -/
theorem addAll_replaced_iff (hside : front = [] ∨ back = []) (hall : ∀ a ∈ front ++ back, a ∈ all) :
    addAll values back = addAll values all ↔
      addAll values (front ++ back) = addAll values all ∧ ∀ a ∈ front, a ∈ values := by
  rcases hside with rfl | rfl
  · rw [List.nil_append]
    exact (and_iff_left nofun).symm
  · rw [List.append_nil] at hall ⊢
    constructor
    · intro heq
      have hself := addAll_eq_self_iff.mp (show addAll values all = values from heq.symm)
      have hfront := fun a ha => hself a (hall a ha)
      exact ⟨(addAll_eq_self_iff.mpr hfront).trans heq, hfront⟩
    · rintro ⟨heq, hfront⟩
      exact (addAll_eq_self_iff.mpr hfront).symm.trans heq

/-- A list that is added behind others is as good as one to which they are added, when it has no
repetition and one of the two begins with the other. -/
theorem addAll_between_iff (hside : front = [] ∨ back = []) :
    addAll (addAll (addAll [] front) values) back = addAll values all ↔
      addAll values (front ++ back) = addAll values all ∧ values.Nodup ∧
        (values <+: addAll [] front ∨ addAll [] front <+: values) := by
  have hfirst : (addAll [] front).Nodup := nodup_addAll List.nodup_nil _
  have hnodup : addAll (addAll (addAll [] front) values) back = addAll values all → values.Nodup :=
    fun heq => nodup_of_addAll (heq ▸ nodup_addAll (nodup_addAll hfirst values) back)
  rcases hside with rfl | rfl
  · rw [List.nil_append, show addAll [] ([] : List α) = [] from rfl]
    constructor
    · intro heq
      have hvalues := hnodup heq
      rw [addAll_nil hvalues] at heq
      exact ⟨heq, hvalues, Or.inr List.nil_prefix⟩
    · rintro ⟨heq, hvalues, -⟩
      rw [addAll_nil hvalues]
      exact heq
  · rw [List.append_nil]
    constructor
    · intro heq
      have hvalues := hnodup heq
      have hstart : addAll [] front <+: addAll values all := heq ▸ addAll_isStart _ _
      have horder := List.prefix_or_prefix_of_prefix (addAll_isStart values all) hstart
      have hswap := (addAll_comm_iff hvalues hfirst).mpr horder
      rw [addAll_addAll_nil] at hswap
      exact ⟨hswap.symm.trans heq, hvalues, horder⟩
    · rintro ⟨heq, hvalues, horder⟩
      have hswap := (addAll_comm_iff hvalues hfirst).mpr horder
      rw [addAll_addAll_nil] at hswap
      exact hswap.trans heq

/-- Others alone are as good as a list to which they are added, when they begin with it. -/
theorem addAll_alone_iff : addAll [] front = addAll values all ↔
    addAll values front = addAll values all ∧ values <+: addAll [] front := by
  have hfirst : (addAll [] front).Nodup := nodup_addAll List.nodup_nil _
  have hgrown : values <+: addAll [] front → addAll [] front = addAll values front := by
    intro hstart
    have hgrown := addAll_of_isStart hfirst hstart
    rw [addAll_addAll_nil] at hgrown
    exact hgrown.symm
  constructor
  · intro heq
    have hstart : values <+: addAll [] front := by
      rw [heq]
      exact addAll_isStart _ _
    exact ⟨(hgrown hstart).symm.trans heq, hstart⟩
  · rintro ⟨heq, hstart⟩
    exact (hgrown hstart).trans heq

end Among

end DevRepro.Lib
