import DevRepro.Project.MatrixSections

/-!
# Matrices

What `parse_workflow_matrices` of `project/ci_parsers.py` returns for the matrix of a job,
whatever its layout.  `matrixRead_iff` says for which layouts that is each axis with its
values and those that `include` adds: a section after `include` may put its values in the
place of those, or be taken for entries of it.
-/

namespace DevRepro.Project

open DevRepro.Python DevRepro.Lib DevRepro.Agents

/-! ## What a matrix says -/

/-- The values that some pairs have for a key. -/
def valuesOf (pairs : List (Str × Str)) (key : Str) : List Str :=
  (pairs.filter fun pair => decide (pair.1 = key)).map Prod.snd

/-- The values of an axis, none if there is no such axis. -/
def ownValues (sections : List MatrixSection) (key : Str) : List Str :=
  ((sections.filterMap MatrixSection.axis).find? fun axis => decide (axis.1 = key)).elim [] Prod.snd

/-- The values that `include` has for a key. -/
def includeValues (sections : List MatrixSection) (key : Str) : List Str :=
  valuesOf (sections.flatMap MatrixSection.included) key

/-- The values of a key: those of the axis, and those of `include` that are not listed yet. -/
def matrixValues (sections : List MatrixSection) (key : Str) : List Str :=
  addAll (ownValues sections key) (includeValues sections key)

/-- The values of `include` on lines that are indented deeper than it. -/
def seenValues (sections : List MatrixSection) (key : Str) : List Str :=
  valuesOf (sections.flatMap MatrixSection.seen) key

/-- Whether the scanner is in an `include` behind a section. -/
def includingAfter (before : Bool) : MatrixSection → Bool
  | .entries included _ _ => included
  | _ => before

/-- The last block sequence of entries is that of `include`, not that of `exclude`. -/
def including (sections : List MatrixSection) : Bool := sections.foldl includingAfter false

/-- A matrix as it can be written: plain names and values, no axis twice, and one `include` and
one `exclude` at most. -/
structure WellFormed (rt : WordRuntime) (sections : List MatrixSection) : Prop where
  plain : ∀ sec ∈ sections, sec.Plain rt
  axes : ((sections.filterMap MatrixSection.axis).map Prod.fst).Nodup
  entries : (sections.filterMap MatrixSection.isEntries).Nodup

/-! ## What the layout keeps -/

/-- What only lines in the column of `include:` say, or a flow list, is listed elsewhere. -/
def IncludeSeen (sections : List MatrixSection) : Prop :=
  ∀ key, addAll (ownValues sections key) (seenValues sections key) = matrixValues sections key

/-- A section keeps its values, and those of `include`, when it stands between two others:
a flow list on one line has those that were included before it; a block list that is read
repeats none, and begins with those or is their beginning; a list that is not read is the
beginning of what is included. -/
def SectionKept (front : List MatrixSection) (sec : MatrixSection) (back : List MatrixSection) : Prop :=
  match sec with
  | .flow name values => ∀ v ∈ seenValues front name, v ∈ values
  | .wrapped name values => values <+: addAll [] (seenValues (front ++ sec :: back) name)
  | .block name values indented =>
    if indented = true ∧ including front = false then
      values.Nodup ∧ (values <+: addAll [] (seenValues front name) ∨
        addAll [] (seenValues front name) <+: values)
    else values <+: addAll [] (seenValues (front ++ sec :: back) name)
  | _ => True

/-- Every section keeps its values. -/
def SectionsKept (sections : List MatrixSection) : Prop :=
  ∀ front sec back, sections = front ++ sec :: back → SectionKept front sec back

/-! ## One key -/

/-- What a section does to the values of a key. -/
def stepAt (key : Str) (r : List Str × Bool) (sec : MatrixSection) : List Str × Bool :=
  match sec with
  | .flow name values => (if name = key then values else r.1, r.2)
  | .wrapped _ _ => r
  | .block name values indented =>
    (if name = key ∧ indented = true ∧ r.2 = false then addAll r.1 values else r.1, r.2)
  | .entries included _ _ => (addAll r.1 (valuesOf sec.seen key), included)
  | .flowEntries _ _ => r

/-- The values of a key, none if it is not there. -/
def valuesAt (axes : Axes) (key : Str) : List Str := (axes.get? key).getD []

theorem valuesAt_set (axes : Axes) (name key : Str) (values : List Str) :
    valuesAt (axes.set name values) key = if key = name then values else valuesAt axes key := by
  rw [valuesAt, Dict.get?_set]
  split_ifs
  · rfl
  · rfl

theorem valuesAt_withAxis (axes : Axes) (name key : Str) :
    valuesAt (withAxis axes name) key = valuesAt axes key := by
  rw [withAxis]
  split_ifs with hhas
  · rfl
  · rw [valuesAt_set]
    split_ifs with hkey
    · rw [Bool.not_eq_true, Dict.contains, Option.isSome_eq_false_iff, Option.isNone_iff_eq_none] at hhas
      rw [hkey, valuesAt, hhas]
      rfl
    · rfl

theorem appendNew_eq (values : List Str) (value : Str) :
    appendNew values value = addMissing values value := by
  rw [appendNew, addMissing]
  split_ifs <;> rfl

theorem valuesAt_addValue (axes : Axes) (name value key : Str) :
    valuesAt (addValue axes name value) key =
      if key = name then addMissing (valuesAt axes key) value else valuesAt axes key := by
  rw [addValue, valuesAt_set, appendNew_eq]
  split_ifs with hkey
  · rw [hkey]
    rfl
  · rfl

theorem valuesAt_addValues (name key : Str) (values : List Str) (axes : Axes) :
    valuesAt (values.foldl (fun axes v => addValue axes name v) axes) key =
      if key = name then addAll (valuesAt axes key) values else valuesAt axes key := by
  induction values generalizing axes with
  | nil => split_ifs <;> rfl
  | cons v values ih =>
    rw [List.foldl_cons, ih, valuesAt_addValue]
    split_ifs with hkey
    · rfl
    · rfl

theorem valuesOf_cons (pair : Str × Str) (pairs : List (Str × Str)) (key : Str) :
    valuesOf (pair :: pairs) key =
      if pair.1 = key then pair.2 :: valuesOf pairs key else valuesOf pairs key := by
  rw [valuesOf, List.filter_cons]
  split_ifs with h h' h'
  · rfl
  · exact absurd (of_decide_eq_true h) h'
  · exact absurd (decide_eq_true h') h
  · rfl

theorem valuesAt_addPairs (key : Str) (pairs : List (Str × Str)) (axes : Axes) :
    valuesAt (pairs.foldl (fun axes pair => addValue axes pair.1 pair.2) axes) key =
      addAll (valuesAt axes key) (valuesOf pairs key) := by
  induction pairs generalizing axes with
  | nil => rfl
  | cons pair pairs ih =>
    rw [List.foldl_cons, ih, valuesAt_addValue, valuesOf_cons]
    by_cases hkey : pair.1 = key
    · rw [if_pos hkey.symm, if_pos hkey]
      rfl
    · rw [if_neg (Ne.symm hkey), if_neg hkey]

/-- The values of one key do not depend on those of another. -/
theorem run_at (key : Str) (r : MatrixReading) (sec : MatrixSection) :
    (valuesAt (sec.run r).axes key, (sec.run r).including) =
      stepAt key (valuesAt r.axes key, r.including) sec := by
  cases sec with
  | flow name values =>
    rw [MatrixSection.run, stepAt]
    dsimp only
    rw [valuesAt_set]
    by_cases hkey : key = name
    · rw [if_pos hkey, if_pos hkey.symm]
    · rw [if_neg hkey, if_neg (Ne.symm hkey)]
  | wrapped name values => rfl
  | block name values indented =>
    rw [MatrixSection.run, stepAt]
    dsimp only
    by_cases hread : indented = true ∧ r.including = false
    · have hopen : (indented && !r.including) = true := by
        rw [hread.1, hread.2]
        rfl
      rw [if_pos hopen, valuesAt_addValues, valuesAt_withAxis]
      by_cases hkey : key = name
      · rw [if_pos hkey, if_pos ⟨hkey.symm, hread⟩]
      · rw [if_neg hkey, if_neg fun hand => hkey hand.1.symm]
    · have hopen : ¬(indented && !r.including) = true := by
        rw [Bool.and_eq_true, Bool.not_eq_true']
        exact hread
      rw [if_neg hopen, valuesAt_withAxis, if_neg fun hand => hread hand.2]
  | entries included items indented =>
    rw [MatrixSection.run, stepAt]
    dsimp only
    rw [valuesAt_addPairs]
  | flowEntries included items => rfl

/-- The values of a key behind some sections. -/
theorem sections_at (key : Str) (sections : List MatrixSection) (r : MatrixReading) :
    (valuesAt (sections.foldl MatrixSection.run r).axes key,
        (sections.foldl MatrixSection.run r).including) =
      sections.foldl (stepAt key) (valuesAt r.axes key, r.including) := by
  induction sections generalizing r with
  | nil => rfl
  | cons sec sections ih => rw [List.foldl_cons, List.foldl_cons, ih, run_at]

section Keys

variable {sections front back : List MatrixSection} {sec : MatrixSection} {key : Str}

/-- The values of a key that the scanner has read. -/
def readAt (sections : List MatrixSection) (key : Str) : List Str :=
  (sections.foldl (stepAt key) ([], false)).1

theorem valuesOf_append (pairs others : List (Str × Str)) (key : Str) :
    valuesOf (pairs ++ others) key = valuesOf pairs key ++ valuesOf others key := by
  rw [valuesOf, valuesOf, valuesOf, List.filter_append, List.map_append]

theorem seenValues_append (front back : List MatrixSection) (key : Str) :
    seenValues (front ++ back) key = seenValues front key ++ seenValues back key := by
  rw [seenValues, seenValues, seenValues, List.flatMap_append, valuesOf_append]

theorem seenValues_cons (sec : MatrixSection) (back : List MatrixSection) (key : Str) :
    seenValues (sec :: back) key = valuesOf sec.seen key ++ seenValues back key := by
  rw [seenValues, seenValues, List.flatMap_cons, valuesOf_append]

/-- Sections of other axes add what they include. -/
theorem foldl_stepAt_others (h : ∀ sec ∈ sections, ∀ axis ∈ sec.axis, axis.1 ≠ key)
    (values : List Str) (before : Bool) :
    sections.foldl (stepAt key) (values, before) =
      (addAll values (seenValues sections key), sections.foldl includingAfter before) := by
  induction sections generalizing values before with
  | nil => rfl
  | cons sec sections ih =>
    have hrest := fun other hother => h other (List.mem_cons_of_mem sec hother)
    have hthis := h sec List.mem_cons_self
    rw [List.foldl_cons, List.foldl_cons, seenValues_cons]
    cases sec with
    | flow name values' =>
      rw [stepAt, if_neg (hthis (name, values') rfl), ih hrest]
      rfl
    | wrapped name values' =>
      rw [stepAt, ih hrest]
      rfl
    | block name values' indented =>
      rw [stepAt, if_neg fun hand => hthis (name, values') rfl hand.1, ih hrest]
      rfl
    | entries included items indented =>
      rw [stepAt, ih hrest, addAll_append]
      rfl
    | flowEntries included items =>
      rw [stepAt, ih hrest]
      rfl

theorem seen_of_axis {values : List Str} (h : sec.axis = some (key, values)) : sec.seen = [] := by
  cases sec with
  | flow name values => rfl
  | wrapped name values => rfl
  | block name values indented => rfl
  | entries included items indented => cases h
  | flowEntries included items => cases h

theorem MatrixEntry.seen_subset (indented : Bool) (entry : MatrixEntry) :
    ∀ pair ∈ entry.seen indented, pair ∈ entry.pairs := by
  intro pair hpair
  cases entry with
  | block first others =>
    cases indented with
    | true => exact hpair
    | false => exact List.mem_cons_of_mem _ hpair
  | flow pairs => cases hpair

/-- What the scanner sees of `include` is in it. -/
theorem seen_subset (sec : MatrixSection) : ∀ pair ∈ sec.seen, pair ∈ sec.included := by
  intro pair hpair
  cases sec with
  | flow name values => cases hpair
  | wrapped name values => cases hpair
  | block name values indented => cases hpair
  | flowEntries included items => cases hpair
  | entries included items indented =>
    cases included with
    | false => cases hpair
    | true =>
      obtain ⟨entry, hentry, hin⟩ := List.mem_flatMap.mp hpair
      exact List.mem_flatMap.mpr ⟨entry, hentry, MatrixEntry.seen_subset indented entry pair hin⟩

theorem mem_valuesOf {pairs : List (Str × Str)} {v : Str} :
    v ∈ valuesOf pairs key ↔ (key, v) ∈ pairs := by
  rw [valuesOf, List.mem_map]
  constructor
  · rintro ⟨⟨name, value⟩, hpair, rfl⟩
    obtain ⟨hmem, hname⟩ := List.mem_filter.mp hpair
    rw [← of_decide_eq_true hname]
    exact hmem
  · intro hmem
    exact ⟨(key, v), List.mem_filter.mpr ⟨hmem, decide_eq_true rfl⟩, rfl⟩

theorem seenValues_subset : ∀ v ∈ seenValues sections key, v ∈ includeValues sections key := by
  intro v hv
  rw [seenValues, mem_valuesOf] at hv
  rw [includeValues, mem_valuesOf]
  obtain ⟨sec, hsec, hin⟩ := List.mem_flatMap.mp hv
  exact List.mem_flatMap.mpr ⟨sec, hsec, seen_subset sec _ hin⟩

/-- The entries that are seen are those of an `include`. -/
theorem include_of_seen (h : seenValues sections key ≠ []) :
    true ∈ sections.filterMap MatrixSection.isEntries := by
  obtain ⟨v, hv⟩ := List.exists_mem_of_ne_nil _ h
  rw [seenValues, mem_valuesOf] at hv
  obtain ⟨sec, hsec, hin⟩ := List.mem_flatMap.mp hv
  refine List.mem_filterMap.mpr ⟨sec, hsec, ?_⟩
  cases sec with
  | flow name values => cases hin
  | wrapped name values => cases hin
  | block name values indented => cases hin
  | flowEntries included items => cases hin
  | entries included items indented =>
    cases included with
    | false => cases hin
    | true => rfl

section Axis

variable {rt : WordRuntime} {values : List Str}

/-- The `include` stands before a section or behind it. -/
theorem WellFormed.seen_side (h : WellFormed rt (front ++ sec :: back)) (key : Str) :
    seenValues front key = [] ∨ seenValues back key = [] := by
  by_contra hboth
  rw [not_or] at hboth
  have hnodup := h.entries
  rw [List.filterMap_append, List.nodup_append] at hnodup
  refine hnodup.2.2 true (include_of_seen hboth.1) true ?_ rfl
  have hback : (sec :: back).filterMap MatrixSection.isEntries =
      sec.isEntries.toList ++ back.filterMap MatrixSection.isEntries := by
    cases hsec : sec.isEntries with
    | none => rw [List.filterMap_cons_none hsec]; rfl
    | some included => rw [List.filterMap_cons_some hsec]; rfl
  rw [hback]
  exact List.mem_append_right _ (include_of_seen hboth.2)

/-- The other sections are of other axes. -/
theorem WellFormed.others (h : WellFormed rt (front ++ sec :: back))
    (haxis : sec.axis = some (key, values)) :
    (∀ other ∈ front, ∀ axis ∈ other.axis, axis.1 ≠ key) ∧
      ∀ other ∈ back, ∀ axis ∈ other.axis, axis.1 ≠ key := by
  have hnodup := h.axes
  rw [List.filterMap_append, List.filterMap_cons_some haxis, List.map_append, List.map_cons,
    List.nodup_append, List.nodup_cons] at hnodup
  constructor
  · intro other hother axis hin heq
    exact hnodup.2.2 axis.1 (List.mem_map_of_mem (List.mem_filterMap.mpr ⟨other, hother, hin⟩)) key
      List.mem_cons_self heq
  · rintro other hother ⟨name, otherValues⟩ hin rfl
    exact hnodup.2.1.1 (List.mem_map.mpr
      ⟨(name, otherValues), List.mem_filterMap.mpr ⟨other, hother, hin⟩, rfl⟩)

/-- Sections of other axes have none of that name. -/
theorem find?_axis_others (h : ∀ sec ∈ sections, ∀ axis ∈ sec.axis, axis.1 ≠ key) :
    (sections.filterMap MatrixSection.axis).find? (fun axis => decide (axis.1 = key)) = none := by
  rw [List.find?_eq_none]
  intro axis hin
  obtain ⟨sec, hsec, hsome⟩ := List.mem_filterMap.mp hin
  rw [decide_eq_true_iff]
  exact h sec hsec axis hsome

theorem ownValues_axis (h : WellFormed rt (front ++ sec :: back))
    (haxis : sec.axis = some (key, values)) : ownValues (front ++ sec :: back) key = values := by
  rw [ownValues, List.filterMap_append, List.filterMap_cons_some haxis, List.find?_append,
    find?_axis_others (h.others haxis).1,
    Option.none_or, List.find?_cons_of_pos (by simp)]
  rfl

theorem readAt_axis (h : WellFormed rt (front ++ sec :: back)) (haxis : sec.axis = some (key, values)) :
    readAt (front ++ sec :: back) key =
      addAll (stepAt key (addAll [] (seenValues front key), including front) sec).1
        (seenValues back key) := by
  obtain ⟨hfront, hback⟩ := h.others haxis
  rw [readAt, List.foldl_append, List.foldl_cons, foldl_stepAt_others hfront, ← including]
  generalize stepAt key (addAll [] (seenValues front key), including front) sec = r
  obtain ⟨read, before⟩ := r
  rw [foldl_stepAt_others hback]

/-- An axis is read as the matrix says it when nothing of `include` is lost, and its section
keeps its values. -/
theorem readAt_axis_iff (h : WellFormed rt (front ++ sec :: back))
    (haxis : sec.axis = some (key, values)) :
    readAt (front ++ sec :: back) key = matrixValues (front ++ sec :: back) key ↔
      addAll (ownValues (front ++ sec :: back) key) (seenValues (front ++ sec :: back) key) =
          matrixValues (front ++ sec :: back) key ∧ SectionKept front sec back := by
  have hside := h.seen_side key
  have hseen : seenValues (front ++ sec :: back) key = seenValues front key ++ seenValues back key := by
    rw [seenValues_append, seenValues_cons, seen_of_axis haxis]
    rfl
  have hsubset := @seenValues_subset (front ++ sec :: back) key
  rw [readAt_axis h haxis, ownValues_axis h haxis, matrixValues, ownValues_axis h haxis]
  rw [hseen] at hsubset ⊢
  generalize includeValues (front ++ sec :: back) key = all at hsubset ⊢
  cases sec with
  | entries included items indented => cases haxis
  | flowEntries included items => cases haxis
  | flow name values' =>
    cases haxis
    rw [stepAt, if_pos rfl, SectionKept]
    exact addAll_replaced_iff hside hsubset
  | wrapped name values' =>
    cases haxis
    rw [stepAt, SectionKept, hseen, ← addAll_append]
    exact addAll_alone_iff
  | block name values' indented =>
    cases haxis
    rw [stepAt, SectionKept]
    by_cases hread : indented = true ∧ including front = false
    · rw [if_pos ⟨rfl, hread⟩, if_pos hread]
      exact addAll_between_iff hside
    · rw [if_neg fun hand => hread hand.2, if_neg hread, hseen]
      show addAll (addAll [] (seenValues front key)) (seenValues back key) = _ ↔ _
      rw [← addAll_append]
      exact addAll_alone_iff

/-- A key without an axis has what is seen of `include`. -/
theorem readAt_other (h : ∀ sec ∈ sections, ∀ axis ∈ sec.axis, axis.1 ≠ key) :
    readAt sections key = addAll (ownValues sections key) (seenValues sections key) := by
  rw [readAt, foldl_stepAt_others h, ownValues, find?_axis_others h]
  rfl

/-- A key has an axis or none. -/
theorem axis_or_other (sections : List MatrixSection) (key : Str) :
    (∃ front sec back values, sections = front ++ sec :: back ∧ sec.axis = some (key, values)) ∨
      ∀ sec ∈ sections, ∀ axis ∈ sec.axis, axis.1 ≠ key := by
  by_cases haxis : ∃ sec ∈ sections, ∃ values, sec.axis = some (key, values)
  · obtain ⟨sec, hsec, values, haxis⟩ := haxis
    obtain ⟨front, back, hsplit⟩ := List.append_of_mem hsec
    exact Or.inl ⟨front, sec, back, values, hsplit, haxis⟩
  · refine Or.inr ?_
    rintro sec hsec ⟨name, values⟩ hin rfl
    exact haxis ⟨sec, hsec, values, hin⟩

/-- The sections are read as the matrix says when nothing of `include` is lost and every section
keeps its values. -/
theorem sections_kept_iff (h : WellFormed rt sections) :
    (∀ key, readAt sections key = matrixValues sections key) ↔
      IncludeSeen sections ∧ SectionsKept sections := by
  constructor
  · intro hall
    refine ⟨fun key => ?_, fun front sec back hsplit => ?_⟩
    · rcases axis_or_other sections key with ⟨front, sec, back, values, rfl, haxis⟩ | hother
      · exact ((readAt_axis_iff h haxis).mp (hall key)).1
      · rw [← readAt_other hother]
        exact hall key
    · subst hsplit
      cases haxis : sec.axis with
      | some axis => exact ((readAt_axis_iff h haxis).mp (hall axis.1)).2
      | none =>
        cases sec with
        | flow name values => cases haxis
        | wrapped name values => cases haxis
        | block name values indented => cases haxis
        | entries included items indented => exact trivial
        | flowEntries included items => exact trivial
  · rintro ⟨hseen, hkept⟩ key
    rcases axis_or_other sections key with ⟨front, sec, back, values, rfl, haxis⟩ | hother
    · exact (readAt_axis_iff h haxis).mpr ⟨hseen key, hkept front sec back rfl⟩
    · rw [readAt_other hother]
      exact hseen key

end Axis

end Keys

end DevRepro.Project
