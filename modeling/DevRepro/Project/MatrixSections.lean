import DevRepro.Lib.MapM
import DevRepro.Project.MatrixText

/-!
# The sections of a matrix

A matrix as it is written, section by section, and what the scanner keeps of each: the axes
that it has read so far and whether it is still in an `include`.  `sections_read` says that
the lines of some sections do what the sections say, whatever their columns, gaps and quotes.
-/

namespace DevRepro.Project

open DevRepro.Python DevRepro.Lib DevRepro.Agents

/-! ## Sections -/

/-- An entry of `include` or `exclude`: a block mapping with a pair a line, or a flow mapping. -/
inductive MatrixEntry where
  | block (first : Str × Str) (others : List (Str × Str))
  | flow (pairs : List (Str × Str))

def MatrixEntry.pairs : MatrixEntry → List (Str × Str)
  | .block first others => first :: others
  | .flow pairs => pairs

/-- A key below `matrix:` with what is below it.  A flow list is on one line or wrapped.  The
items of a block sequence are indented, or stand in the column of the key. -/
inductive MatrixSection where
  | flow (name : Str) (values : List Str)
  | wrapped (name : Str) (values : List Str)
  | block (name : Str) (values : List Str) (indented : Bool)
  | entries (included : Bool) (items : List MatrixEntry) (indented : Bool)
  | flowEntries (included : Bool) (items : List (List (Str × Str)))

namespace MatrixSection

/-- An axis, with its values. -/
def axis : MatrixSection → Option (Str × List Str)
  | flow name values => some (name, values)
  | wrapped name values => some (name, values)
  | block name values _ => some (name, values)
  | _ => none

/-- The pairs of the entries, of `include` and `exclude`. -/
def pairs : MatrixSection → List (Str × Str)
  | entries _ items _ => items.flatMap MatrixEntry.pairs
  | flowEntries _ items => items.flatten
  | _ => []

/-- The pairs that the section includes. -/
def included : MatrixSection → List (Str × Str)
  | entries true items _ => items.flatMap MatrixEntry.pairs
  | flowEntries true items => items.flatten
  | _ => []

/-- Whether the section is the `include` or the `exclude` of the matrix. -/
def isEntries : MatrixSection → Option Bool
  | entries included _ _ => some included
  | flowEntries included _ => some included
  | _ => none

end MatrixSection

/-- The pairs of an entry on lines that are indented deeper than `include:`. -/
def MatrixEntry.seen (indented : Bool) : MatrixEntry → List (Str × Str)
  | .block first others => if indented then first :: others else others
  | .flow _ => []

/-- The pairs on lines that are indented deeper than `include:`. -/
def MatrixSection.seen : MatrixSection → List (Str × Str)
  | .entries true items indented => items.flatMap (MatrixEntry.seen indented)
  | _ => []

/-! ## Lines -/

/-- The lines of a text, with their columns, without the blank ones and the comments. -/
def contentOf (lines : List Str) : List (Nat × Str) :=
  (lines.filter fun line => !isFiller line).map fun line => (indentOf line, strip line)

/-- The column of the items of a block sequence. -/
def ItemColumn (c : Nat) (indented : Bool) (column : Nat) : Prop :=
  if indented then c < column else column = c

/-- An item of a block sequence. -/
inductive ItemText (v : Str) : Str → Prop
  | mk {t dashed : Str} (ht : Written v t) (hdashed : Dashed t dashed) : ItemText v dashed

/-- A pair in a flow mapping. -/
inductive FlowPair (pair : Str × Str) : Str → Prop
  | mk {l text r : Str} (hl : IsBlank l) (ht : PairText pair.1 pair.2 text) (hr : IsBlank r) :
      FlowPair pair (l ++ text ++ r)

/-- A flow mapping. -/
inductive FlowMapping (pairs : List (Str × Str)) : Str → Prop
  | mk {pieces : List Str} (h : List.Forall₂ FlowPair pairs pieces) :
      FlowMapping pairs (codePoint '\x7b' :: (join "," pieces ++ [codePoint '\x7d']))

/-- A flow mapping, with whitespace around it. -/
inductive FlowEntry (pairs : List (Str × Str)) : Str → Prop
  | mk {l text r : Str} (hl : IsBlank l) (ht : FlowMapping pairs text) (hr : IsBlank r) :
      FlowEntry pairs (l ++ text ++ r)

/-- The lines of an entry, with its dash in a column. -/
inductive EntryLines (column : Nat) : MatrixEntry → List (Nat × Str) → Prop
  | block {first : Str × Str} {others : List (Str × Str)} {gap text : Str} {texts : List Str}
      (hgap : IsBlank gap) (hne : gap ≠ []) (hfirst : PairText first.1 first.2 text)
      (hothers : List.Forall₂ (fun pair t => PairText pair.1 pair.2 t) others texts) :
      EntryLines column (.block first others) ((column, codePoint '-' :: (gap ++ text)) ::
        texts.map fun t => (column + 1 + gap.length, t))
  | flow {pairs : List (Str × Str)} {text dashed : Str} (ht : FlowMapping pairs text)
      (hdashed : Dashed text dashed) : EntryLines column (.flow pairs) [(column, dashed)]

/-- The key of the entries. -/
def entriesKey (included : Bool) : Str := if included then "include" else "exclude"

/-- The lines of a section, with its key in a column. -/
inductive SectionLines (c : Nat) : MatrixSection → List (Nat × Str) → Prop
  | flow {name : Str} {values : List Str} {gap inside : Str} (hgap : IsBlank gap)
      (h : FlowValues values inside) :
      SectionLines c (.flow name values)
        [(c, name ++ codePoint ':' :: (gap ++ codePoint '[' :: (inside ++ [codePoint ']'])))]
  | wrapped {name : Str} {values : List Str} {gap inside start : Str} {rest : List (Nat × Str)}
      (hgap : IsBlank gap) (h : FlowValues values inside)
      (htext : join " " (start :: rest.map Prod.snd) = inside ++ [codePoint ']'])
      (hstart : codePoint ']' ∉ start)
      (hrest : ∀ line ∈ rest, c ≤ line.1 ∧ startsWith line.2 "-" = false) :
      SectionLines c (.wrapped name values)
        ((c, name ++ codePoint ':' :: (gap ++ codePoint '[' :: start)) :: rest)
  | block {name : Str} {values : List Str} {indented : Bool} {column : Nat} {texts : List Str}
      (hcolumn : ItemColumn c indented column) (h : List.Forall₂ ItemText values texts) :
      SectionLines c (.block name values indented)
        ((c, name ++ lit ":") :: texts.map fun t => (column, t))
  | entries {included : Bool} {items : List MatrixEntry} {indented : Bool} {column : Nat}
      {blocks : List (List (Nat × Str))} (hcolumn : ItemColumn c indented column)
      (h : List.Forall₂ (EntryLines column) items blocks) :
      SectionLines c (.entries included items indented)
        ((c, entriesKey included ++ lit ":") :: blocks.flatten)
  | flowEntries {included : Bool} {items : List (List (Str × Str))} {gap start : Str}
      {pieces : List Str} {rest : List (Nat × Str)} (hgap : IsBlank gap)
      (h : List.Forall₂ FlowEntry items pieces)
      (htext : join " " (start :: rest.map Prod.snd) = join "," pieces ++ [codePoint ']'])
      (hrest : ∀ line ∈ rest, c ≤ line.1 ∧ ∃ d others, line.2 = d :: others ∧
        (d = codePoint '\x7b' ∨ d = codePoint ']')) :
      SectionLines c (.flowEntries included items)
        ((c, entriesKey included ++ codePoint ':' :: (gap ++ codePoint '[' :: start)) :: rest)

/-- The names and the values of a section are plain. -/
structure MatrixSection.Plain (rt : WordRuntime) (s : MatrixSection) : Prop where
  axis : ∀ name values, s.axis = some (name, values) →
    KeyName rt name ∧ name ∉ matrixMeta ∧ ∀ v ∈ values, PlainValue v
  pairs : ∀ pair ∈ s.pairs, KeyName rt pair.1 ∧ pair.1 ∉ matrixMeta ∧ PlainValue pair.2

/-! ## What the scanner keeps -/

/-- The axes so far, and whether the scanner is still in an `include`. -/
structure MatrixReading where
  axes : Axes
  including : Bool

/-- What a section does to it. -/
def MatrixSection.run (r : MatrixReading) (s : MatrixSection) : MatrixReading :=
  match s with
  | .flow name values => { r with axes := r.axes.set name values }
  | .wrapped _ _ => r
  | .block name values indented =>
    let axes := withAxis r.axes name
    { r with
      axes := if indented && !r.including then values.foldl (fun axes v => addValue axes name v) axes
        else axes }
  | .entries included _ _ =>
    ⟨s.seen.foldl (fun axes pair => addValue axes pair.1 pair.2) r.axes, included⟩
  | .flowEntries _ _ => r

section Lines

variable {rt : WordRuntime} {s : AxesScan} {c i : Nat} {key value text dashed : Str}

/-- The scanner is not deeper than the last `include:` in a column. -/
def AtColumn (c : Nat) (s : AxesScan) : Prop := s.inInclude = true → c ≤ s.axisIndent

/-- Between two sections no axis is open, and no `include`, that is further left. -/
structure Ready (c : Nat) (s : AxesScan) : Prop where
  column : AtColumn c s
  axis : s.axis = none ∨ ¬s.axisIndent < c

theorem AtColumn.not_deeper (h : AtColumn c s) :
    (s.inInclude && decide (s.axisIndent < c)) = false := by
  cases hinclude : s.inInclude with
  | false => rfl
  | true =>
    rw [Bool.true_and, decide_eq_false_iff_not, Nat.not_lt]
    exact h hinclude

theorem entriesKey_meta (included : Bool) : entriesKey included ∈ matrixMeta := by
  cases included <;> decide

theorem entriesKey_name (included : Bool) : KeyName rt (entriesKey included) := by
  cases included with
  | true => exact keyName_of_ascii (by decide) (by decide)
  | false => exact keyName_of_ascii (by decide) (by decide)

/-- A key with something behind it opens no entries. -/
theorem not_entriesKey_behind {name rest : Str} (hne : rest ≠ []) (hname : KeyName rt name) :
    ¬(name ++ codePoint ':' :: rest = lit "include:" ∨
      name ++ codePoint ':' :: rest = lit "exclude:") := by
  have hentries : ∀ included, name ++ codePoint ':' :: rest ≠ entriesKey included ++ lit ":" := by
    intro included heq
    have hread := keyAndRest_key hname rest
    rw [heq] at hread
    have hother : keyAndRest rt.toAgentRuntime (entriesKey included ++ codePoint ':' :: []) =
        some (entriesKey included, []) := keyAndRest_key (entriesKey_name included) []
    exact hne (Prod.mk.inj (Option.some_inj.mp (hread.symm.trans hother))).2
  rintro (heq | heq)
  · exact hentries true heq
  · exact hentries false heq

/-- A text that does not end with a colon opens no entries. -/
theorem not_entriesKey {text : Str} (h : ∀ c ∈ text.getLast?, c ≠ codePoint ':') :
    ¬(text = lit "include:" ∨ text = lit "exclude:") := by
  rintro (rfl | rfl)
  · exact h (codePoint ':') (by decide) rfl
  · exact h (codePoint ':') (by decide) rfl

theorem not_entriesKey_dashed (h : Dashed text dashed) :
    ¬(dashed = lit "include:" ∨ dashed = lit "exclude:") := by
  cases h with
  | mk hgap hne =>
    rintro (heq | heq)
    · exact absurd (List.cons.inj heq).1 (by decide)
    · exact absurd (List.cons.inj heq).1 (by decide)

theorem not_entriesKey_pair (h : PairText key value text) (hv : PlainValue value) :
    ¬(text = lit "include:" ∨ text = lit "exclude:") := by
  cases h with
  | @mk gap t hgap ht =>
    have htoken := ht.token hv
    refine not_entriesKey fun d hd => ?_
    rw [← List.cons_append, ← List.append_assoc, List.getLast?_append_of_ne_nil _ htoken.ne_nil] at hd
    rintro rfl
    exact htoken.no_colon (List.mem_of_mem_getLast? hd)

/-- The line of the entries' key. -/
theorem axesLine_entries (rt : WordRuntime) (s : AxesScan) (c : Nat) (included : Bool) :
    axesLine rt.toAgentRuntime s c (entriesKey included ++ lit ":") =
      { s with inInclude := included, axis := none, axisIndent := c } := by
  cases included with
  | true =>
    have htext : entriesKey true ++ lit ":" = lit "include:" := by decide
    rw [htext, axesLine, if_pos (Or.inl rfl)]
    rfl
  | false =>
    have htext : entriesKey false ++ lit ":" = lit "exclude:" := by decide
    have hother : decide (lit "exclude:" = lit "include:") = false := by decide
    rw [htext, axesLine, if_pos (Or.inr rfl), hother]

theorem deeper_eq_true (hinclude : s.inInclude = true) (hdeeper : s.axisIndent < i) :
    (s.inInclude && decide (s.axisIndent < i)) = true := by
  rw [hinclude, Bool.true_and, decide_eq_true_iff]
  exact hdeeper

/-- A line deeper than `include:` that is no pair. -/
theorem axesLine_noPair (hkey : ¬(text = lit "include:" ∨ text = lit "exclude:"))
    (hinclude : s.inInclude = true) (hdeeper : s.axisIndent < i)
    (hpair : includePair rt.toAgentRuntime text = none) :
    axesLine rt.toAgentRuntime s i text = s := by
  rw [axesLine, if_neg hkey, if_pos (deeper_eq_true hinclude hdeeper), hpair]

/-- A line deeper than `include:` with a pair. -/
theorem axesLine_pair (hinclude : s.inInclude = true) (hdeeper : s.axisIndent < i)
    (hnot : ¬(dashed = lit "include:" ∨ dashed = lit "exclude:"))
    (hpair : includePair rt.toAgentRuntime dashed = includePair rt.toAgentRuntime text)
    (h : PairText key value text) (hkey : KeyName rt key) (hmeta : key ∉ matrixMeta)
    (hv : PlainValue value) :
    axesLine rt.toAgentRuntime s i dashed = { s with axes := addValue s.axes key value } := by
  obtain ⟨raw, hread, hraw⟩ := includePair_pair h hkey hv
  rw [axesLine, if_neg hnot, if_pos (deeper_eq_true hinclude hdeeper), hpair, hread]
  dsimp only
  rw [hraw, if_pos ⟨hmeta, hv.counts⟩]

/-- A line that opens nothing and is no item changes nothing. -/
theorem axesLine_skip (hkey : ¬(text = lit "include:" ∨ text = lit "exclude:"))
    (hflow : (flowList rt.toAgentRuntime text).filter (fun item => decide (item.1 ∉ matrixMeta)) = none)
    (hblock : (blockKey rt.toAgentRuntime text).filter (fun key => decide (key ∉ matrixMeta)) = none)
    (hdeeper : (s.inInclude && decide (s.axisIndent < i)) = false)
    (haxis : s.axis = none ∨ ¬s.axisIndent < i ∨ blockItem text = none) :
    axesLine rt.toAgentRuntime s i text = s := by
  rw [axesLine, if_neg hkey, hdeeper, if_neg Bool.false_ne_true, hflow, hblock]
  dsimp only
  cases hopen : s.axis with
  | none => rfl
  | some name =>
    dsimp only
    rcases haxis with haxis | haxis | haxis
    · rw [hopen] at haxis
      cases haxis
    · rw [if_neg haxis]
    · rw [haxis]
      exact ite_self s

/-- A line that is neither a key nor an item changes nothing. -/
theorem axesLine_foreign (hkey : keyAndRest rt.toAgentRuntime text = none)
    (hdash : startsWith text "-" = false) (s : AxesScan) (i : Nat) :
    axesLine rt.toAgentRuntime s i text = s := by
  have hnot : ¬(text = lit "include:" ∨ text = lit "exclude:") := by
    have hentries : ∀ included,
        keyAndRest rt.toAgentRuntime (entriesKey included ++ lit ":") ≠ none := by
      intro included hnone
      have hread : keyAndRest rt.toAgentRuntime (entriesKey included ++ codePoint ':' :: []) =
          some (entriesKey included, []) := keyAndRest_key (entriesKey_name included) []
      exact absurd (hread.symm.trans hnone) (Option.some_ne_none _)
    rintro (rfl | rfl)
    · exact hentries true hkey
    · exact hentries false hkey
  have hpair : includePair rt.toAgentRuntime text = none := by
    rw [includePair, hdash, if_neg Bool.false_ne_true, hkey]
    rfl
  cases hdeeper : s.inInclude && decide (s.axisIndent < i) with
  | true =>
    rw [Bool.and_eq_true, decide_eq_true_iff] at hdeeper
    exact axesLine_noPair hnot hdeeper.1 hdeeper.2 hpair
  | false =>
    refine axesLine_skip hnot ?_ ?_ hdeeper (Or.inr (Or.inr ?_))
    · rw [flowList, hkey]
      rfl
    · rw [blockKey, hkey]
      rfl
    · rw [blockItem, hdash, if_neg Bool.false_ne_true]

theorem axesLine_flow (hcolumn : AtColumn c s) {values : List Str} {gap inside : Str}
    (hgap : IsBlank gap) (hvalues : FlowValues values inside) (hkey : KeyName rt key)
    (hmeta : key ∉ matrixMeta) (hplain : ∀ v ∈ values, PlainValue v) :
    axesLine rt.toAgentRuntime s c
        (key ++ codePoint ':' :: (gap ++ codePoint '[' :: (inside ++ [codePoint ']']))) =
      { s with axes := s.axes.set key values, axis := none } := by
  have hnot := @not_entriesKey_behind rt key (gap ++ codePoint '[' :: (inside ++ [codePoint ']']))
    (List.append_ne_nil_of_right_ne_nil _ (List.cons_ne_nil _ _)) hkey
  rw [axesLine, if_neg hnot, hcolumn.not_deeper, if_neg Bool.false_ne_true, flowList_flow hkey hgap,
    Option.filter_some, if_pos (decide_eq_true hmeta)]
  dsimp only
  rw [hvalues.read hplain]

/-- The key of a flow list that is not read changes nothing. -/
theorem axesLine_unread (hready : Ready c s) (hkey : KeyName rt key) {gap start : Str}
    (hgap : IsBlank gap) (hlost : key ∈ matrixMeta ∨ codePoint ']' ∉ start) :
    axesLine rt.toAgentRuntime s c (key ++ codePoint ':' :: (gap ++ codePoint '[' :: start)) = s := by
  refine axesLine_skip (not_entriesKey_behind ?_ hkey) ?_ ?_ hready.column.not_deeper ?_
  · exact List.append_ne_nil_of_right_ne_nil _ (List.cons_ne_nil _ _)
  · cases hflow : flowList rt.toAgentRuntime
        (key ++ codePoint ':' :: (gap ++ codePoint '[' :: start)) with
    | none => rfl
    | some item =>
      rcases hlost with hmeta | hstart
      · rw [Option.filter_some, if_neg]
        rw [decide_eq_true_iff, not_not, flowList_name hkey hflow]
        exact hmeta
      · rw [flowList_wrapped hkey hgap hstart] at hflow
        cases hflow
  · rw [blockKey_flow hkey hgap]
    rfl
  · exact hready.axis.imp_right Or.inl

/-- The key of a block sequence. -/
theorem axesLine_key (hcolumn : AtColumn c s) (hkey : KeyName rt key) (hmeta : key ∉ matrixMeta) :
    axesLine rt.toAgentRuntime s c (key ++ lit ":") =
      { s with axes := withAxis s.axes key, axis := some key, axisIndent := c } := by
  have hnot : ¬(key ++ lit ":" = lit "include:" ∨ key ++ lit ":" = lit "exclude:") := by
    rintro (heq | heq)
    · have hname : key = lit "include" := @List.append_cancel_right _ _ (lit ":") _ heq
      exact hmeta (hname ▸ entriesKey_meta true)
    · have hname : key = lit "exclude" := @List.append_cancel_right _ _ (lit ":") _ heq
      exact hmeta (hname ▸ entriesKey_meta false)
  rw [axesLine, if_neg hnot, hcolumn.not_deeper, if_neg Bool.false_ne_true, flowList_key hkey,
    blockKey_key hkey, Option.filter_none, Option.filter_some, if_pos (decide_eq_true hmeta)]

/-- An item of the axis that is open. -/
theorem axesLine_item (haxis : s.axis = some key) (hdeeper : s.axisIndent < i)
    (hinclude : s.inInclude = false) (h : ItemText value text) (hv : PlainValue value) :
    axesLine rt.toAgentRuntime s i text = { s with axes := addValue s.axes key value } := by
  cases h with
  | @mk t dashed ht hdashed =>
    have hread := ht.unquote_eq hv (l := []) (r := []) nofun nofun
    rw [List.nil_append, List.append_nil] at hread
    rw [axesLine, if_neg (not_entriesKey_dashed hdashed), hinclude, Bool.false_and,
      if_neg Bool.false_ne_true, flowList_dashed hdashed, blockKey_dashed hdashed, Option.filter_none,
      Option.filter_none]
    dsimp only
    rw [haxis]
    dsimp only
    rw [if_pos hdeeper, blockItem_dashed hdashed (ht.token hv)]
    dsimp only
    rw [hread, if_pos hv.counts]

/-- A dashed line that is no pair, or is not deeper than the key above it, changes nothing. -/
theorem axesLine_dashed (h : Dashed text dashed)
    (hcase : (s.inInclude = true ∧ s.axisIndent < i ∧ includePair rt.toAgentRuntime dashed = none) ∨
      ((s.inInclude && decide (s.axisIndent < i)) = false ∧ (s.axis = none ∨ ¬s.axisIndent < i))) :
    axesLine rt.toAgentRuntime s i dashed = s := by
  rcases hcase with ⟨hinclude, hdeeper, hpair⟩ | ⟨hdeeper, haxis⟩
  · exact axesLine_noPair (not_entriesKey_dashed h) hinclude hdeeper hpair
  · refine axesLine_skip (not_entriesKey_dashed h) ?_ ?_ hdeeper (haxis.imp_right Or.inl)
    · rw [flowList_dashed h, Option.filter_none]
    · rw [blockKey_dashed h, Option.filter_none]

/-- A pair outside an `include` changes nothing. -/
theorem axesLine_excluded (hinclude : s.inInclude = false) (haxis : s.axis = none)
    (h : PairText key value text) (hkey : KeyName rt key) (hv : PlainValue value) :
    axesLine rt.toAgentRuntime s i text = s := by
  refine axesLine_skip (not_entriesKey_pair h hv) ?_ ?_ ?_ (Or.inl haxis)
  · rw [flowList_pair h hkey hv, Option.filter_none]
  · rw [blockKey_pair h hkey hv, Option.filter_none]
  · rw [hinclude, Bool.false_and]

/-- An item is no pair. -/
theorem includePair_item (h : Dashed text dashed) (ht : Token text) :
    includePair rt.toAgentRuntime dashed = none := by
  cases h with
  | @mk gap hgap hne =>
    have hstart : startsWith (codePoint '-' :: (gap ++ text)) "-" = true :=
      List.isPrefixOf_iff_prefix.mpr ⟨gap ++ text, rfl⟩
    rw [includePair, hstart, if_pos rfl, keyAndRest_dash hgap hne, behindDash_gap hgap ht.head,
      keyAndRest_token ht]
    rfl

/-- A flow mapping is no pair. -/
theorem includePair_mapping {pairs : List (Str × Str)} (h : Dashed text dashed)
    (ht : FlowMapping pairs text) : includePair rt.toAgentRuntime dashed = none := by
  cases ht with
  | @mk pieces hpieces =>
    cases h with
    | @mk gap hgap hne =>
      have hstart : startsWith (codePoint '-' :: (gap ++ codePoint '\x7b' ::
          (join "," pieces ++ [codePoint '\x7d']))) "-" = true :=
        List.isPrefixOf_iff_prefix.mpr ⟨_, rfl⟩
      have hhead : ∀ d ∈ (codePoint '\x7b' :: (join "," pieces ++ [codePoint '\x7d'])).head?,
          isSpace d = false := by
        intro d hd
        rw [← Option.some_inj.mp hd]
        decide
      have hkey : keyAndRest rt.toAgentRuntime (codePoint '\x7b' ::
          (join "," pieces ++ [codePoint '\x7d'])) = none := by
        refine keyAndRest_eq_none ?_
        rw [List.dropWhile_cons_of_neg (by rw [isNameChar_brace]; exact Bool.false_ne_true)]
        rfl
      rw [includePair, hstart, if_pos rfl, keyAndRest_dash hgap hne, behindDash_gap hgap hhead, hkey]
      rfl

end Lines

/-! ## Sections, line by line -/

/-- The lines of a `matrix:` block, one after another. -/
def readLines (rt : AgentRuntime) (s : AxesScan) (lines : List (Nat × Str)) : AxesScan :=
  lines.foldl (fun s line => axesLine rt s line.1 line.2) s

section Sections

variable {rt : WordRuntime} {s : AxesScan} {c : Nat}

theorem readLines_append (s : AxesScan) (front back : List (Nat × Str)) :
    readLines rt.toAgentRuntime s (front ++ back) =
      readLines rt.toAgentRuntime (readLines rt.toAgentRuntime s front) back := List.foldl_append

theorem readLines_cons (s : AxesScan) (line : Nat × Str) (rest : List (Nat × Str)) :
    readLines rt.toAgentRuntime s (line :: rest) =
      readLines rt.toAgentRuntime (axesLine rt.toAgentRuntime s line.1 line.2) rest := rfl

theorem readLines_unchanged {lines : List (Nat × Str)}
    (h : ∀ line ∈ lines, axesLine rt.toAgentRuntime s line.1 line.2 = s) :
    readLines rt.toAgentRuntime s lines = s := by
  induction lines with
  | nil => rfl
  | cons line rest ih =>
    rw [readLines_cons, h line List.mem_cons_self]
    exact ih fun other hother => h other (List.mem_cons_of_mem _ hother)

/-- The items of an axis that is open are added to it. -/
theorem readLines_items {name : Str} {column : Nat} {values texts : List Str}
    (h : List.Forall₂ ItemText values texts) (haxis : s.axis = some name)
    (hdeeper : s.axisIndent < column) (hinclude : s.inInclude = false)
    (hplain : ∀ v ∈ values, PlainValue v) :
    readLines rt.toAgentRuntime s (texts.map fun t => (column, t)) =
      { s with axes := values.foldl (fun axes v => addValue axes name v) s.axes } := by
  induction h generalizing s with
  | nil => rfl
  | @cons v text values texts hitem _ ih =>
    rw [List.map_cons, readLines_cons, axesLine_item haxis hdeeper hinclude hitem
      (hplain v List.mem_cons_self)]
    exact @ih { s with axes := addValue s.axes name v } haxis hdeeper hinclude
      fun w hw => hplain w (List.mem_cons_of_mem _ hw)

/-- Pairs on lines of their own, within an `include`. -/
theorem readLines_pairs {column : Nat} {pairs : List (Str × Str)} {texts : List Str}
    (h : List.Forall₂ (fun pair t => PairText pair.1 pair.2 t) pairs texts)
    (hinclude : s.inInclude = true) (hdeeper : s.axisIndent < column)
    (hplain : ∀ pair ∈ pairs, KeyName rt pair.1 ∧ pair.1 ∉ matrixMeta ∧ PlainValue pair.2) :
    readLines rt.toAgentRuntime s (texts.map fun t => (column, t)) =
      { s with axes := pairs.foldl (fun axes pair => addValue axes pair.1 pair.2) s.axes } := by
  induction h generalizing s with
  | nil => rfl
  | @cons pair text pairs texts hpair _ ih =>
    obtain ⟨hkey, hmeta, hv⟩ := hplain pair List.mem_cons_self
    rw [List.map_cons, readLines_cons, axesLine_pair hinclude hdeeper (not_entriesKey_pair hpair hv) rfl
      hpair hkey hmeta hv]
    exact @ih { s with axes := addValue s.axes pair.1 pair.2 } hinclude hdeeper
      fun other hother => hplain other (List.mem_cons_of_mem _ hother)

/-- An entry of `include`. -/
theorem readLines_included {column : Nat} {indented : Bool} {entry : MatrixEntry}
    {lines : List (Nat × Str)} (h : EntryLines column entry lines)
    (hcolumn : ItemColumn c indented column) (hinclude : s.inInclude = true) (hindent : s.axisIndent = c) (haxis : s.axis = none)
    (hplain : ∀ pair ∈ entry.pairs, KeyName rt pair.1 ∧ pair.1 ∉ matrixMeta ∧ PlainValue pair.2) :
    readLines rt.toAgentRuntime s lines =
      { s with
        axes := (entry.seen indented).foldl (fun axes pair => addValue axes pair.1 pair.2) s.axes } := by
  cases h with
  | @block first others gap text texts hgap hne hfirst hothers =>
    obtain ⟨hkey, hmeta, hv⟩ := hplain first List.mem_cons_self
    have hrest := fun pair hpair => hplain pair (List.mem_cons_of_mem first hpair)
    have hdashed : Dashed text (codePoint '-' :: (gap ++ text)) := .mk hgap hne
    have hhead := hfirst.head hkey
    have hnodash : startsWith text "-" = false := by
      cases hfirst with
      | mk hgap' ht => exact hkey.no_dash _
    rw [readLines_cons, MatrixEntry.seen]
    cases indented with
    | true =>
      have hdeeper : s.axisIndent < column := by rw [hindent]; exact hcolumn
      rw [axesLine_pair hinclude hdeeper (not_entriesKey_dashed hdashed)
        (includePair_dashed hdashed hhead hnodash) hfirst hkey hmeta hv, if_pos rfl]
      have hlater : s.axisIndent < column + 1 + gap.length := by omega
      exact @readLines_pairs rt { s with axes := addValue s.axes first.1 first.2 } _ _ _ hothers hinclude
        hlater hrest
    | false =>
      have hsame : column = c := hcolumn
      have hat : ¬s.axisIndent < column := by omega
      have hnot : (s.inInclude && decide (s.axisIndent < column)) = false := by
        rw [decide_eq_false hat, Bool.and_false]
      rw [axesLine_dashed hdashed (Or.inr ⟨hnot, Or.inl haxis⟩), if_neg Bool.false_ne_true]
      exact readLines_pairs hothers hinclude (by omega) hrest
  | @flow pairs text dashed ht hdashed =>
    have hpair := @includePair_mapping rt _ _ _ hdashed ht
    rw [readLines_cons, MatrixEntry.seen]
    have hcase : (s.inInclude = true ∧ s.axisIndent < column ∧
        includePair rt.toAgentRuntime dashed = none) ∨
        ((s.inInclude && decide (s.axisIndent < column)) = false ∧
          (s.axis = none ∨ ¬s.axisIndent < column)) := by
      by_cases hdeeper : s.axisIndent < column
      · exact Or.inl ⟨hinclude, hdeeper, hpair⟩
      · exact Or.inr ⟨by rw [decide_eq_false hdeeper, Bool.and_false], Or.inl haxis⟩
    rw [axesLine_dashed hdashed hcase]
    rfl

/-- An entry of `exclude` changes nothing. -/
theorem readLines_excluded {column : Nat} {entry : MatrixEntry} {lines : List (Nat × Str)}
    (h : EntryLines column entry lines) (hinclude : s.inInclude = false) (haxis : s.axis = none)
    (hplain : ∀ pair ∈ entry.pairs, KeyName rt pair.1 ∧ pair.1 ∉ matrixMeta ∧ PlainValue pair.2) :
    readLines rt.toAgentRuntime s lines = s := by
  have hdash : ∀ {i : Nat} {text dashed : Str}, Dashed text dashed →
      axesLine rt.toAgentRuntime s i dashed = s := fun hdashed =>
    axesLine_dashed hdashed (Or.inr ⟨by rw [hinclude, Bool.false_and], Or.inl haxis⟩)
  cases h with
  | @block first others gap text texts hgap hne hfirst hothers =>
    rw [readLines_cons, hdash (.mk hgap hne)]
    refine readLines_unchanged fun line hline => ?_
    obtain ⟨t, ht, rfl⟩ := List.mem_map.mp hline
    obtain ⟨pair, hpair, htext⟩ := exists_of_forall₂ hothers ht
    obtain ⟨hkey, -, hv⟩ := hplain pair (List.mem_cons_of_mem _ hpair)
    exact axesLine_excluded hinclude haxis htext hkey hv
  | @flow pairs text dashed ht hdashed =>
    rw [readLines_cons, hdash hdashed]
    rfl

/-- The entries of `include`, one after another. -/
theorem readLines_includedAll {column : Nat} {indented : Bool} {items : List MatrixEntry}
    {blocks : List (List (Nat × Str))} (h : List.Forall₂ (EntryLines column) items blocks)
    (hcolumn : ItemColumn c indented column) (hinclude : s.inInclude = true)
    (hindent : s.axisIndent = c) (haxis : s.axis = none)
    (hplain : ∀ pair ∈ items.flatMap MatrixEntry.pairs,
      KeyName rt pair.1 ∧ pair.1 ∉ matrixMeta ∧ PlainValue pair.2) :
    readLines rt.toAgentRuntime s blocks.flatten =
      { s with
        axes := (items.flatMap (MatrixEntry.seen indented)).foldl
          (fun axes pair => addValue axes pair.1 pair.2) s.axes } := by
  induction h generalizing s with
  | nil => rfl
  | @cons entry lines items blocks hentry _ ih =>
    rw [List.flatMap_cons] at hplain
    have hthis := readLines_included hentry hcolumn hinclude hindent haxis
      fun pair hpair => hplain pair (List.mem_append_left _ hpair)
    rw [List.flatten_cons, readLines_append, hthis, List.flatMap_cons, List.foldl_append]
    exact ih (s := { s with
      axes := (entry.seen indented).foldl (fun axes pair => addValue axes pair.1 pair.2) s.axes })
      hinclude hindent haxis fun pair hpair => hplain pair (List.mem_append_right _ hpair)

/-- The entries of `exclude`. -/
theorem readLines_excludedAll {column : Nat} {items : List MatrixEntry}
    {blocks : List (List (Nat × Str))} (h : List.Forall₂ (EntryLines column) items blocks) (hinclude : s.inInclude = false)
    (haxis : s.axis = none) (hplain : ∀ pair ∈ items.flatMap MatrixEntry.pairs,
      KeyName rt pair.1 ∧ pair.1 ∉ matrixMeta ∧ PlainValue pair.2) :
    readLines rt.toAgentRuntime s blocks.flatten = s := by
  induction h with
  | nil => rfl
  | @cons entry lines items blocks hentry _ ih =>
    rw [List.flatMap_cons] at hplain
    rw [List.flatten_cons, readLines_append, readLines_excluded hentry hinclude haxis
      fun pair hpair => hplain pair (List.mem_append_left _ hpair)]
    exact ih fun pair hpair => hplain pair (List.mem_append_right _ hpair)

/-- Some lines do what a section says, and no `include` that is further left is open behind
them. -/
structure ReadAs (rt : WordRuntime) (c : Nat) (s : AxesScan) (sec : MatrixSection)
    (lines : List (Nat × Str)) : Prop where
  axes : (readLines rt.toAgentRuntime s lines).axes = (sec.run ⟨s.axes, s.inInclude⟩).axes
  including : (readLines rt.toAgentRuntime s lines).inInclude =
    (sec.run ⟨s.axes, s.inInclude⟩).including
  ready : Ready c (readLines rt.toAgentRuntime s lines)

theorem ReadAs.of_eq {s' : AxesScan} {sec : MatrixSection} {lines : List (Nat × Str)}
    (h : readLines rt.toAgentRuntime s lines = s')
    (haxes : s'.axes = (sec.run ⟨s.axes, s.inInclude⟩).axes)
    (hincluding : s'.inInclude = (sec.run ⟨s.axes, s.inInclude⟩).including) (hready : Ready c s') :
    ReadAs rt c s sec lines := by
  subst h
  exact ⟨haxes, hincluding, hready⟩

/-- A wrapped flow list is not read: its first line has no end, and no other has a key. -/
theorem wrapped_read {name : Str} {values : List Str} {gap inside start : Str}
    {rest : List (Nat × Str)} (hready : Ready c s) (hkey : KeyName rt name)
    (hplain : ∀ v ∈ values, PlainValue v) (hgap : IsBlank gap) (hvalues : FlowValues values inside)
    (htext : join " " (start :: rest.map Prod.snd) = inside ++ [codePoint ']'])
    (hstart : codePoint ']' ∉ start) (hrest : ∀ line ∈ rest, startsWith line.2 "-" = false) :
    ReadAs rt c s (.wrapped name values)
      ((c, name ++ codePoint ':' :: (gap ++ codePoint '[' :: start)) :: rest) := by
  have hsame : readLines rt.toAgentRuntime s
      ((c, name ++ codePoint ':' :: (gap ++ codePoint '[' :: start)) :: rest) = s := by
    rw [readLines_cons, axesLine_unread hready hkey hgap (Or.inr hstart), readLines_unchanged]
    intro line hline
    refine axesLine_foreign (keyAndRest_eq_none (startsWith_colon_eq_false fun hcolon => ?_))
      (hrest line hline) _ _
    -- No value has a colon.
    have hin : codePoint ':' ∈ join " " (start :: rest.map Prod.snd) :=
      mem_join_of_mem (List.mem_cons_of_mem _ (List.mem_map_of_mem hline))
        ((List.dropWhile_suffix _).subset hcolon)
    rw [htext] at hin
    rcases List.mem_append.mp hin with hin | hin
    · exact hvalues.no_colon hplain hin
    · exact absurd (List.mem_singleton.mp hin) (by decide)
  exact .of_eq hsame rfl rfl hready

/-- A block list is read when it is deeper than its key and no `include` is open; else its items
are taken for entries, or for nothing. -/
theorem block_read {name : Str} {values : List Str} {indented : Bool} {column : Nat}
    {texts : List Str} (hready : Ready c s) (hkey : KeyName rt name) (hmeta : name ∉ matrixMeta)
    (hplain : ∀ v ∈ values, PlainValue v) (hcolumn : ItemColumn c indented column)
    (hitems : List.Forall₂ ItemText values texts) :
    ReadAs rt c s (.block name values indented)
      ((c, name ++ lit ":") :: texts.map fun t => (column, t)) := by
  by_cases hread : indented = true ∧ s.inInclude = false
  · obtain ⟨rfl, hinclude⟩ := hread
    have hlines : readLines rt.toAgentRuntime s
        ((c, name ++ lit ":") :: texts.map fun t => (column, t)) =
          ⟨values.foldl (fun axes v => addValue axes name v) (withAxis s.axes name), some name, c,
          s.inInclude⟩ := by
      rw [readLines_cons, axesLine_key hready.column hkey hmeta]
      exact readLines_items hitems rfl (show c < column from hcolumn) hinclude hplain
    have hopen : (true && !s.inInclude) = true := by rw [hinclude]; rfl
    refine .of_eq hlines ?_ rfl ⟨fun _ => le_rfl, Or.inr (lt_irrefl c)⟩
    rw [MatrixSection.run, if_pos hopen]
  · have hlines : readLines rt.toAgentRuntime s
        ((c, name ++ lit ":") :: texts.map fun t => (column, t)) =
          ⟨withAxis s.axes name, some name, c, s.inInclude⟩ := by
      rw [readLines_cons, axesLine_key hready.column hkey hmeta]
      refine readLines_unchanged fun line hline => ?_
      obtain ⟨t, ht, rfl⟩ := List.mem_map.mp hline
      obtain ⟨v, hv, hitem⟩ := exists_of_forall₂ hitems ht
      cases hitem with
      | @mk written dashed hwritten hdashed =>
        refine axesLine_dashed hdashed ?_
        cases indented with
        | false =>
          have hsame : column = c := hcolumn
          have hnot : ¬c < column := by omega
          exact Or.inr ⟨by rw [decide_eq_false hnot, Bool.and_false], Or.inr hnot⟩
        | true =>
          have hinclude : s.inInclude = true := by
            rw [← Bool.not_eq_false]
            exact fun hfalse => hread ⟨rfl, hfalse⟩
          exact Or.inl ⟨hinclude, hcolumn, includePair_item hdashed (hwritten.token (hplain v hv))⟩
    have hlost : ¬(indented && !s.inInclude) = true := by
      rw [Bool.and_eq_true, Bool.not_eq_true']
      exact hread
    refine .of_eq hlines ?_ rfl ⟨fun _ => le_rfl, Or.inr (lt_irrefl c)⟩
    rw [MatrixSection.run, if_neg hlost]

/-- The lines of a section do what the section says. -/
theorem section_read {sec : MatrixSection} {lines : List (Nat × Str)} (h : SectionLines c sec lines)
    (hplain : sec.Plain rt) (hready : Ready c s) : ReadAs rt c s sec lines := by
  cases h with
  | @flow name values gap inside hgap hvalues =>
    obtain ⟨hkey, hmeta, hvs⟩ := hplain.axis name values rfl
    exact .of_eq (axesLine_flow hready.column hgap hvalues hkey hmeta hvs) rfl rfl
      ⟨hready.column, Or.inl rfl⟩
  | @wrapped name values gap inside start rest hgap hvalues htext hstart hrest =>
    obtain ⟨hkey, -, hvs⟩ := hplain.axis name values rfl
    exact wrapped_read hready hkey hvs hgap hvalues htext hstart fun line hline => (hrest line hline).2
  | @block name values indented column texts hcolumn hitems =>
    obtain ⟨hkey, hmeta, hvs⟩ := hplain.axis name values rfl
    exact block_read hready hkey hmeta hvs hcolumn hitems
  | @entries included items indented column blocks hcolumn hitems =>
    cases included with
    | true =>
      have hlines := @readLines_includedAll rt ⟨s.axes, none, c, true⟩ c _ _ _ _ hitems hcolumn rfl rfl
        rfl hplain.pairs
      have hsame := axesLine_entries rt s c true
      exact .of_eq ((congrArg (fun s => readLines rt.toAgentRuntime s _) hsame).trans hlines) rfl rfl
        ⟨fun _ => le_rfl, Or.inl rfl⟩
    | false =>
      have hlines := @readLines_excludedAll rt ⟨s.axes, none, c, false⟩ _ _ _ hitems rfl rfl hplain.pairs
      have hsame := axesLine_entries rt s c false
      exact .of_eq ((congrArg (fun s => readLines rt.toAgentRuntime s _) hsame).trans hlines) rfl rfl
        ⟨nofun, Or.inl rfl⟩
  | @flowEntries included items gap start pieces rest hgap hpieces htext hrest =>
    have hsame : readLines rt.toAgentRuntime s
        ((c, entriesKey included ++ codePoint ':' :: (gap ++ codePoint '[' :: start)) :: rest) = s := by
      rw [readLines_cons, axesLine_unread hready (entriesKey_name included) hgap
        (Or.inl (entriesKey_meta included)), readLines_unchanged]
      intro line hline
      obtain ⟨-, d, others, htext', hsign⟩ := hrest line hline
      rw [htext']
      rcases hsign with rfl | rfl
      · exact axesLine_foreign (keyAndRest_sign isNameChar_brace (by decide) others) rfl _ _
      · exact axesLine_foreign (keyAndRest_sign isNameChar_bracket (by decide) others) rfl _ _
    exact .of_eq hsame rfl rfl hready

/-- The lines of some sections do what the sections say. -/
theorem sections_read {sections : List MatrixSection} {blocks : List (List (Nat × Str))}
    (h : List.Forall₂ (SectionLines c) sections blocks) (hplain : ∀ sec ∈ sections, sec.Plain rt)
    (hready : Ready c s) :
    (readLines rt.toAgentRuntime s blocks.flatten).axes =
      (sections.foldl MatrixSection.run ⟨s.axes, s.inInclude⟩).axes := by
  induction h generalizing s with
  | nil => rfl
  | @cons sec lines sections blocks hsec _ ih =>
    have hread := section_read hsec (hplain sec List.mem_cons_self) hready
    rw [List.flatten_cons, readLines_append, List.foldl_cons,
      ih (fun other hother => hplain other (List.mem_cons_of_mem _ hother)) hread.ready, hread.axes,
      hread.including]

end Sections

end DevRepro.Project
