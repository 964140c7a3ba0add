import DevRepro.Lib.Lines

/-!
# Markup

A document of tags, each with the text behind it.  `lt` opens a tag and `gt` closes
it; a reader that finds `lt` is in a tag until the next `gt`.

What is printed is read back (`readMarkup_printMarkup`) when no tag has either of the two
in it and no text has an `lt`.  A document has as many tags as it has `lt`s
(`length_readMarkup`), so that a text with an `lt` adds a tag.
-/

namespace DevRepro.Lib

variable {α : Type} [DecidableEq α]

/-- The tags of a document, each with the text behind it. -/
abbrev Markup (α : Type) := List (List α × List α)

/-- A tag and its text, as they are printed. -/
def printTag (lt gt : α) (item : List α × List α) : List α := lt :: (item.1 ++ gt :: item.2)

/-- The document of some tags. -/
def printMarkup (lt gt : α) (items : Markup α) : List α := items.flatMap (printTag lt gt)

/-- The tag that a part of a document starts with, and the text behind it. -/
def splitTag (gt : α) (part : List α) : List α × List α :=
  (part.takeWhile fun c => c ≠ gt, (part.dropWhile fun c => c ≠ gt).tail)

/-- The parts of a document that start at an `lt`. -/
def tagParts (lt : α) (s : List α) : List (List α) := behind (fun c => decide (c = lt)) s

/-- The tags that a reader finds. -/
def readMarkup (lt gt : α) (s : List α) : Markup α := (tagParts lt s).map (splitTag gt)

variable {lt gt : α}

theorem splitTag_append {tag : List α} (h : gt ∉ tag) (text : List α) :
    splitTag gt (tag ++ gt :: text) = (tag, text) := by
  have hkept : ∀ c ∈ tag, decide (c ≠ gt) = true := by
    intro c hc
    rw [decide_eq_true_eq]
    rintro rfl
    exact h hc
  rw [splitTag, List.takeWhile_append_of_pos hkept, List.dropWhile_append_of_pos hkept]
  simp

theorem unbroken_of_not_mem {s : List α} (h : lt ∉ s) : Unbroken (fun c => decide (c = lt)) s := by
  intro c hc
  rw [decide_eq_false_iff_not]
  rintro rfl
  exact h hc

theorem tagParts_cons (s : List α) :
    tagParts lt (lt :: s) = firstLine (fun c => decide (c = lt)) s :: tagParts lt s := by
  rw [tagParts, behind, linesOf_cons, if_pos (decide_eq_true rfl), List.tail_cons, linesOf_eq]
  rfl

theorem tagParts_append {s : List α} (h : lt ∉ s) (t : List α) :
    tagParts lt (s ++ t) = tagParts lt t := behind_append (unbroken_of_not_mem h) t

/-- Each `lt` starts a part. -/
theorem length_tagParts (s : List α) : (tagParts lt s).length = s.count lt := by
  induction s with
  | nil => rfl
  | cons c s ih =>
    by_cases hc : c = lt
    · rw [hc, tagParts_cons, List.length_cons, List.count_cons_self, ih]
    · have hnot : lt ∉ [c] := by
        rw [List.mem_singleton]
        exact Ne.symm hc
      have hpart := tagParts_append hnot s
      rw [List.singleton_append] at hpart
      rw [hpart, List.count_cons_of_ne hc, ih]

theorem length_readMarkup (s : List α) : (readMarkup lt gt s).length = s.count lt := by
  rw [readMarkup, List.length_map, length_tagParts]

/-- A tag that can be printed. -/
def PlainTag (lt gt : α) (item : List α × List α) : Prop := lt ∉ item.1 ∧ gt ∉ item.1 ∧ lt ∉ item.2

theorem firstLine_printMarkup {s : List α} (h : lt ∉ s) (items : Markup α) :
    firstLine (fun c => decide (c = lt)) (s ++ printMarkup lt gt items) = s := by
  rw [firstLine_append (unbroken_of_not_mem h)]
  cases items with
  | nil => exact List.append_nil s
  | cons item items =>
    rw [printMarkup, List.flatMap_cons, printTag, List.cons_append, firstLine]
    simp

/-- The parts of a printed document. -/
theorem tagParts_printMarkup (hne : lt ≠ gt) {items : Markup α}
    (h : ∀ item ∈ items, PlainTag lt gt item) :
    tagParts lt (printMarkup lt gt items) = items.map fun item => item.1 ++ gt :: item.2 := by
  induction items with
  | nil => rfl
  | cons item items ih =>
    rw [List.forall_mem_cons] at h
    obtain ⟨⟨hlt, hgt, htext⟩, hitems⟩ := h
    have hbody : lt ∉ item.1 ++ gt :: item.2 := by
      rw [List.mem_append, List.mem_cons]
      rintro (hin | hin | hin)
      · exact hlt hin
      · exact hne hin
      · exact htext hin
    rw [printMarkup, List.flatMap_cons, printTag, List.cons_append, tagParts_cons,
      tagParts_append hbody, List.map_cons, ← printMarkup, firstLine_printMarkup hbody, ih hitems]

/-- What is printed is read back. -/
theorem readMarkup_printMarkup (hne : lt ≠ gt) {items : Markup α}
    (h : ∀ item ∈ items, PlainTag lt gt item) : readMarkup lt gt (printMarkup lt gt items) = items := by
  have hsplit : ∀ item ∈ items, splitTag gt (item.1 ++ gt :: item.2) = item := fun item hitem =>
    splitTag_append (h item hitem).2.1 item.2
  rw [readMarkup, tagParts_printMarkup hne h, List.map_map]
  exact (List.map_congr_left hsplit).trans (List.map_id' items)

/-- What stands between two `lt`s is a part. -/
theorem mem_tagParts {a : List α} (ha : lt ∉ a) (before rest : List α) :
    a ∈ tagParts lt (before ++ lt :: (a ++ lt :: rest)) := by
  have hlt : decide (lt = lt) = true := decide_eq_true rfl
  rw [tagParts, behind, @linesOf_append_cons _ (fun c => decide (c = lt)) lt _ _ hlt,
    @linesOf_append_cons _ (fun c => decide (c = lt)) lt _ _ hlt, (unbroken_of_not_mem ha).linesOf,
    linesOf_eq before]
  simp

/-! ## How many tags -/

theorem count_printTag (hne : lt ≠ gt) (item : List α × List α) :
    (printTag lt gt item).count lt = item.1.count lt + item.2.count lt + 1 := by
  rw [printTag, List.count_cons_self, List.count_append, List.count_cons_of_ne (Ne.symm hne)]

/-- A document has a tag too many, unless every `lt` in it opens a tag that was printed. -/
theorem count_printMarkup_eq_length (hne : lt ≠ gt) {items : Markup α} :
    (printMarkup lt gt items).count lt = items.length ↔
      ∀ item ∈ items, lt ∉ item.1 ∧ lt ∉ item.2 := by
  have hle : ∀ items : Markup α, items.length ≤ (printMarkup lt gt items).count lt := by
    intro items
    induction items with
    | nil => exact Nat.zero_le _
    | cons item items ih =>
      rw [printMarkup, List.flatMap_cons, List.count_append, count_printTag hne, List.length_cons]
      rw [printMarkup] at ih
      omega
  induction items with
  | nil => simp [printMarkup]
  | cons item items ih =>
    have hrest := hle items
    rw [List.forall_mem_cons]
    refine Iff.trans ?_ (and_congr_right fun _ => ih)
    rw [← List.count_eq_zero, ← List.count_eq_zero]
    rw [printMarkup] at hrest ⊢
    rw [List.flatMap_cons, List.count_append, count_printTag hne, List.length_cons]
    rw [← printMarkup] at hrest ⊢
    omega

end DevRepro.Lib
