import DevRepro.Reports.Tables

/-!
# Rows that stay rows

What `_cell` writes is read back (`held_cell`).  A value that is written as it is, or
in a code span, is read back exactly when it has nothing in it that the table rule
acts on (`held_text_iff`, `held_code_iff`).
-/

namespace DevRepro.Reports

open DevRepro.Python DevRepro.Lib DevRepro.Diff
open DevRepro.Mcp (Finding)

/-! ## Pieces -/

/-- The pieces that a cell makes of its row. -/
def padded (text : Str) : List Str :=
  pieces (codePoint '\\') (codePoint '|') (codePoint ' ' :: (text ++ [codePoint ' ']))

theorem pieces_cells (cells : List Str) :
    pieces (codePoint '\\') (codePoint '|') (cells.flatMap fun text => lit " " ++ (text ++ lit " |")) =
      cells.flatMap padded ++ [[]] := by
  induction cells with
  | nil => rfl
  | cons text cells ih =>
    have hcell : lit " " ++ (text ++ lit " |") ++
        cells.flatMap (fun text => lit " " ++ (text ++ lit " |")) =
        codePoint ' ' :: (text ++ codePoint ' ' :: codePoint '|' ::
          cells.flatMap fun text => lit " " ++ (text ++ lit " |")) := by
      rw [List.append_assoc, List.append_assoc]
      rfl
    rw [List.flatMap_cons, hcell, pieces_cell (by decide), ih, List.flatMap_cons, List.append_assoc]
    rfl

/-- The pipes at the ends of a row have no cells outside. -/
theorem rowCells_tableRow (cells : List Str) : rowCells (tableRow cells) = cells.flatMap padded := by
  have hrow : pieces (codePoint '\\') (codePoint '|') (tableRow cells) =
      [] :: (cells.flatMap padded ++ [[]]) := by
    rw [← pieces_cells]
    rfl
  have hblank : ∀ rest : List Str, dropBlank ([] :: rest) = rest := by
    intro rest
    rw [dropBlank, if_pos (show strip [] = [] from rfl)]
  rw [rowCells, hrow, hblank, List.reverse_append, List.reverse_singleton, List.singleton_append, hblank,
    List.reverse_reverse]

theorem unbroken_tableRow {cells : List Str} :
    Unbroken endsLine (tableRow cells) ↔ ∀ text ∈ cells, Unbroken endsLine text := by
  have hpipe : Unbroken endsLine (lit "|") := by decide
  have hspace : Unbroken endsLine (lit " ") := by decide
  have hend : Unbroken endsLine (lit " |") := by decide
  rw [tableRow, unbroken_append]
  constructor
  · rintro ⟨-, h⟩ text htext c hc
    exact h c (List.mem_flatMap.mpr ⟨text, htext, List.mem_append_right _ (List.mem_append_left _ hc)⟩)
  · refine fun h => ⟨hpipe, fun c hc => ?_⟩
    obtain ⟨text, htext, hin⟩ := List.mem_flatMap.mp hc
    rcases List.mem_append.mp hin with hin | hin
    · exact hspace c hin
    · rcases List.mem_append.mp hin with hin | hin
      · exact h text htext c hin
      · exact hend c hin

/-! ## Tables -/

/-- A field, and the text that is written for it. -/
structure Printed where
  field : Field
  written : Str

/-- The text stays on its line and in its cell, and is read as the field. -/
def Printed.Held (printed : Printed) : Prop :=
  Unbroken endsLine printed.written ∧
    ∃ piece, padded printed.written = [piece] ∧ printed.field.HeldBy piece

theorem row_reads_iff {header : Str} {printed : List Printed}
    (hlen : (rowCells header).length = printed.length) :
    (∃ line, linesOf endsLine (tableRow (printed.map Printed.written)) = [line] ∧
      (rowCells line).length = (rowCells header).length ∧
      List.Forall₂ Field.HeldBy (printed.map Printed.field) (rowCells line)) ↔
    ∀ p ∈ printed, p.Held := by
  have hcells : List.Forall₂ Field.HeldBy (printed.map Printed.field)
      (rowCells (tableRow (printed.map Printed.written))) ↔
      ∀ p ∈ printed, ∃ piece, padded p.written = [piece] ∧ p.field.HeldBy piece := by
    have hmake : ∀ p : Printed, padded p.written ≠ [] := fun p => piecesFrom_ne_nil _ _
    rw [rowCells_tableRow, List.flatMap_map, List.forall₂_map_left_iff]
    exact forall₂_flatMap_iff hmake printed
  constructor
  · rintro ⟨line, hline, -, hfields⟩ p hp
    obtain ⟨hunbroken, rfl⟩ := linesOf_eq_singleton.mp hline
    exact ⟨unbroken_tableRow.mp hunbroken _ (List.mem_map_of_mem hp), hcells.mp hfields p hp⟩
  · intro h
    have hunbroken : Unbroken endsLine (tableRow (printed.map Printed.written)) := by
      refine unbroken_tableRow.mpr fun text htext => ?_
      obtain ⟨p, hp, rfl⟩ := List.mem_map.mp htext
      exact (h p hp).1
    have hfields := hcells.mpr fun p hp => (h p hp).2
    refine ⟨_, linesOf_eq_singleton.mpr ⟨hunbroken, rfl⟩, ?_, hfields⟩
    rw [hlen, ← hfields.length_eq, List.length_map]

/-- A table is read when each value in it is. -/
theorem tableReads_iff {ι : Type} {header : Str} {fields : ι → List Field} {row : ι → Str}
    {printed : ι → List Printed} (hlen : ∀ item, (rowCells header).length = (printed item).length)
    (hrow : ∀ item, row item = tableRow ((printed item).map Printed.written))
    (hfields : ∀ item, fields item = (printed item).map Printed.field) (items : List ι) :
    TableReads header fields items (items.map row) ↔
      ∀ item ∈ items, ∀ p ∈ printed item, p.Held := by
  have hmake : ∀ item, linesOf endsLine (row item) ≠ [] := by
    intro item
    rw [linesOf_eq]
    exact List.cons_ne_nil _ _
  rw [TableReads, List.flatMap_map, forall₂_flatMap_iff hmake]
  refine forall₂_congr fun item _ => ?_
  rw [hrow, hfields]
  exact row_reads_iff (hlen item)

/-! ## Line breaks -/

theorem replaceText_absent {c : CodePoint} {old new s : Str} (h : c ∉ s) :
    replaceText (c :: old) new s = s := by
  have hpast := @replaceText_past c old new s h []
  rw [List.append_nil, replaceText_nil, List.append_nil] at hpast
  exact hpast

theorem endsLine_iff {c : CodePoint} :
    endsLine c = true ↔ c = codePoint '\n' ∨ c = codePoint '\r' := by
  simp [endsLine]

theorem unbroken_iff {s : Str} :
    Unbroken endsLine s ↔ codePoint '\n' ∉ s ∧ codePoint '\r' ∉ s := by
  constructor
  · intro h
    refine ⟨fun hin => ?_, fun hin => ?_⟩
    · exact absurd (h _ hin) (by decide)
    · exact absurd (h _ hin) (by decide)
  · rintro ⟨hnewline, hreturn⟩ c hc
    refine eq_false_of_ne_true fun hends => ?_
    rcases endsLine_iff.mp hends with rfl | rfl
    · exact hnewline hc
    · exact hreturn hc

theorem oneLine_unbroken {s : Str} (h : Unbroken endsLine s) : oneLine s = s := by
  obtain ⟨hnewline, hreturn⟩ := unbroken_iff.mp h
  have hpair : replaceText "\r\n" " " s = s := replaceText_absent hreturn
  have hchar : replaceText "\n" " " s = s := replaceText_absent hnewline
  rw [oneLine, hpair, hchar]
  exact replaceText_absent hreturn

theorem mem_replaceText_char {a b c : CodePoint} {s : Str} (h : c ∈ replaceText [a] [b] s) :
    c = b ∨ c ∈ s ∧ c ≠ a := by
  rw [replaceText_char] at h
  obtain ⟨d, hd, hc⟩ := List.mem_flatMap.mp h
  split_ifs at hc with hda
  · exact Or.inl (List.mem_singleton.mp hc)
  · rw [List.mem_singleton.mp hc]
    exact Or.inr ⟨hd, hda⟩

/-- What is put on one line has no line break. -/
theorem unbroken_oneLine (s : Str) : Unbroken endsLine (oneLine s) := by
  intro c hc
  refine eq_false_of_ne_true fun hends => ?_
  have hspace : c ≠ codePoint ' ' := by
    rintro rfl
    exact absurd hends (by decide)
  rcases mem_replaceText_char hc with heq | ⟨hin, hreturn⟩
  · exact hspace heq
  · rcases mem_replaceText_char hin with heq | ⟨-, hnewline⟩
    · exact hspace heq
    · rcases endsLine_iff.mp hends with heq | heq
      · exact hnewline heq
      · exact hreturn heq

/-! ## White space -/

theorem strip_padded_text (text : Str) :
    strip (codePoint ' ' :: (text ++ [codePoint ' '])) = strip text := by
  have hblank : ∀ c ∈ [codePoint ' '], isSpace c = true := by
    intro c hc
    rw [List.mem_singleton.mp hc]
    decide
  exact strip_padded hblank hblank text

/-- What does not start with white space, and lies in a text, lies behind the white space that
the text starts with. -/
theorem infix_dropWhile {c : CodePoint} {x s : Str} (hc : isSpace c = false) (h : c :: x <:+: s) :
    c :: x <:+: s.dropWhile isSpace := by
  obtain ⟨before, after, rfl⟩ := h
  rw [List.append_assoc, List.cons_append, List.dropWhile_append]
  split_ifs
  · rw [List.dropWhile_cons_of_neg (by simp [hc])]
    exact ⟨[], after, by simp⟩
  · exact ⟨before.dropWhile isSpace, after, by simp⟩

/-- Two characters that are no white space are kept by `strip`. -/
theorem infix_strip {c d : CodePoint} {s : Str} (hc : isSpace c = false) (hd : isSpace d = false)
    (h : [c, d] <:+: s) : [c, d] <:+: strip s := by
  have hback : [d, c] <:+: (s.dropWhile isSpace).reverse :=
    List.reverse_infix.mpr (infix_dropWhile hc h)
  exact List.reverse_infix.mpr (infix_dropWhile hd hback)

/-! ## Values -/

theorem padded_eq {text piece : Str} (h : padded text = [piece]) :
    piece = codePoint ' ' :: (text ++ [codePoint ' ']) := by
  rw [padded, pieces] at h
  exact eq_of_piecesFrom h

/-- A text without a pipe is one piece. -/
theorem padded_of_not_mem {text : Str} (h : codePoint '|' ∉ text) :
    padded text = [codePoint ' ' :: (text ++ [codePoint ' '])] := by
  refine piecesFrom_eq ?_ false
  rw [List.mem_cons, List.mem_append, List.mem_singleton]
  rintro (heq | hin | heq)
  · exact absurd heq (by decide)
  · exact h hin
  · exact absurd heq (by decide)

/-- A text that is one piece has no pipe, unless behind a backslash. -/
theorem marked_of_padded {text piece : Str} (h : padded text = [piece])
    (hpipe : codePoint '|' ∈ text) : [codePoint '\\', codePoint '|'] <:+: strip text := by
  have hin : codePoint '|' ∈ codePoint ' ' :: (text ++ [codePoint ' ']) :=
    List.mem_cons_of_mem _ (List.mem_append_left _ hpipe)
  have hpieces := h
  rw [padded_eq h] at hpieces
  rw [padded, pieces] at hpieces
  rcases bare_or_marked hpieces hin with ⟨hstate, -⟩ | hmarked
  · exact absurd hstate Bool.false_ne_true
  · rw [← strip_padded_text]
    exact infix_strip (by decide) (by decide) hmarked

/-- A value with nothing in it that the table rule acts on in a text. -/
structure PlainText (value : Str) : Prop where
  pipe : codePoint '|' ∉ value
  backslashes : ¬[codePoint '\\', codePoint '\\'] <:+: value
  unbroken : Unbroken endsLine value

/-- A value with nothing in it that ends a code span in a table. -/
structure PlainCode (value : Str) : Prop where
  pipe : codePoint '|' ∉ value
  backtick : codePoint '\x60' ∉ value
  unbroken : Unbroken endsLine value

theorem pipe_infix {s : Str} (h : codePoint '|' ∉ s) : ¬[codePoint '\\', codePoint '|'] <:+: s :=
  fun hin => h (hin.subset (by simp))

/-- A value that is written as it is. -/
theorem held_text_iff (value : Str) : Printed.Held ⟨.text value, value⟩ ↔ PlainText value := by
  have htails : ∀ entry ∈ cellEscapes.table, entry.2 ≠ [] := by decide
  have hread : ∀ s : Str, cellEscapes.unescape s = s ↔
      ¬[codePoint '\\', codePoint '\\'] <:+: s ∧ ¬[codePoint '\\', codePoint '|'] <:+: s := by
    intro s
    rw [Escapes.unescape_eq_self_iff htails, Escapes.unmarked_iff]
    simp only [cellEscapes, List.forall_mem_cons, List.not_mem_nil, false_imp_iff, forall_const,
      and_true]
    rfl
  constructor
  · rintro ⟨hunbroken, piece, hpiece, hheld⟩
    have htext : cellEscapes.unescape (strip value) = strip value := by
      rw [Field.HeldBy, cellText, padded_eq hpiece, strip_padded_text, oneLine_unbroken hunbroken] at hheld
      exact hheld
    obtain ⟨hbackslashes, hpipe⟩ := (hread _).mp htext
    refine ⟨fun hin => hpipe (marked_of_padded hpiece hin), fun hin => ?_, hunbroken⟩
    exact hbackslashes (infix_strip (by decide) (by decide) hin)
  · intro h
    refine ⟨h.unbroken, _, padded_of_not_mem h.pipe, ?_⟩
    show cellEscapes.unescape (strip (codePoint ' ' :: (value ++ [codePoint ' ']))) =
      strip (oneLine value)
    rw [strip_padded_text, oneLine_unbroken h.unbroken, hread]
    refine ⟨fun hin => h.backslashes (hin.trans (stripChars_within value)), fun hin => ?_⟩
    exact pipe_infix h.pipe (hin.trans (stripChars_within value))

theorem strip_codeSpan (value : Str) : strip (codeSpan value) = codeSpan value := by
  apply stripChars_eq_self
  · rintro c hc
    obtain rfl := Option.some.inj hc
    decide
  · intro c hc
    have hlast : (codeSpan value).getLast? = some (codePoint '\x60') := by
      rw [codeSpan, ← List.append_assoc]
      exact List.getLast?_concat
    rw [hlast] at hc
    obtain rfl := Option.some.inj hc
    decide

theorem inner_codeSpan (value : Str) : ((codeSpan value).drop 1).dropLast = value :=
  List.dropLast_concat

theorem codeSpan_unbroken {value : Str} :
    Unbroken endsLine (codeSpan value) ↔ Unbroken endsLine value := by
  have hmark : Unbroken endsLine (lit "`") := by decide
  rw [codeSpan, unbroken_append, unbroken_append]
  exact ⟨fun h => h.2.1, fun h => ⟨hmark, h, hmark⟩⟩

theorem mem_codeSpan {value : Str} {c : CodePoint} (hc : c ≠ codePoint '\x60') :
    c ∈ codeSpan value ↔ c ∈ value := by
  have hmark : c ∉ lit "`" := fun h => hc (List.mem_singleton.mp h)
  rw [codeSpan, List.mem_append, List.mem_append, or_iff_right hmark, or_iff_left hmark]

/-- Two characters that are no backticks lie within a code span. -/
theorem infix_codeSpan {c d : CodePoint} {value : Str} (hc : c ≠ codePoint '\x60')
    (hd : d ≠ codePoint '\x60') (h : [c, d] <:+: codeSpan value) : [c, d] <:+: value := by
  have hmark : ∀ {x y : CodePoint} {s : Str}, x ≠ codePoint '\x60' →
      [x, y] <:+: codePoint '\x60' :: s → [x, y] <:+: s := by
    intro x y s hx hin
    rcases List.infix_cons_iff.mp hin with hstart | hin
    · exact absurd (List.cons_prefix_cons.mp hstart).1 hx
    · exact hin
  have hopen : [c, d] <:+: value ++ [codePoint '\x60'] := hmark hc h
  have hclose : [d, c] <:+: codePoint '\x60' :: value.reverse := by
    rw [← List.reverse_infix] at hopen
    simpa using hopen
  rw [← List.reverse_infix]
  exact hmark hd hclose

/-- A value that is written as a code span. -/
theorem held_code_iff (value : Str) :
    Printed.Held ⟨.code value, codeSpan value⟩ ↔ PlainCode value := by
  have htails : ∀ entry ∈ pipeEscapes.table, entry.2 ≠ [] := by decide
  have hread : ∀ s : Str, pipeEscapes.unescape s = s ↔
      ¬[codePoint '\\', codePoint '|'] <:+: s := by
    intro s
    rw [Escapes.unescape_eq_self_iff htails, Escapes.unmarked_iff]
    simp only [pipeEscapes, List.forall_mem_cons, List.not_mem_nil, false_imp_iff, forall_const,
      and_true]
    rfl
  have hcode : cellCode (codePoint ' ' :: (codeSpan value ++ [codePoint ' '])) =
      if codePoint '\x60' ∉ value then some (pipeEscapes.unescape (strip value)) else none := by
    rw [cellCode, strip_padded_text, strip_codeSpan, inner_codeSpan]
    simp
  constructor
  · rintro ⟨hunbroken, piece, hpiece, hheld⟩
    have hvalue := codeSpan_unbroken.mp hunbroken
    rw [Field.HeldBy, padded_eq hpiece] at hheld
    dsimp only at hheld
    rw [hcode, oneLine_unbroken hvalue] at hheld
    split_ifs at hheld with hbacktick
    refine ⟨fun hin => ?_, hbacktick, hvalue⟩
    -- The pipe stands behind a backslash, and the code span loses it.
    have hspan : codePoint '|' ∈ codeSpan value := (mem_codeSpan (by decide)).mpr hin
    have hmarked := marked_of_padded hpiece hspan
    rw [strip_codeSpan] at hmarked
    have hinner := infix_codeSpan (by decide) (by decide) hmarked
    exact (hread _).mp (Option.some.inj hheld) (infix_strip (by decide) (by decide) hinner)
  · intro h
    have hpipe : codePoint '|' ∉ codeSpan value := fun hin =>
      h.pipe ((mem_codeSpan (by decide)).mp hin)
    refine ⟨codeSpan_unbroken.mpr h.unbroken, _, padded_of_not_mem hpipe, ?_⟩
    show cellCode _ = some (strip (oneLine value))
    rw [hcode, if_pos h.backtick, oneLine_unbroken h.unbroken, (hread _).mpr fun hin => ?_]
    exact pipe_infix h.pipe (hin.trans (stripChars_within value))

/-! ## Escaped values -/

theorem cellEscapes_sound : cellEscapes.Sound := by
  constructor
  · decide
  · decide

theorem cellEscapes_readBy : Escapes.ReadBy cellEscapes cellEscapes :=
  ⟨rfl, cellEscapes_sound.mark, fun _ h => h⟩

theorem tail?_of_ne {c : CodePoint} (hmark : c ≠ codePoint '\\') (hpipe : c ≠ codePoint '|') :
    cellEscapes.tail? c = none := by
  simp [Escapes.tail?, cellEscapes, Ne.symm hmark, Ne.symm hpipe]

/-- `_cell` escapes the text on one line. -/
theorem cell_eq (text : Str) : cell text = cellEscapes.escape (strip (oneLine text)) := by
  have hstaged : Staged cellEscapes.mark cellEscapes.table := by decide
  have hescape : replaceText "|" "\\|" (replaceText "\\" "\\\\" text) = cellEscapes.escape text :=
    replaceEach_eq_escape hstaged text
  have hreturn := @tail?_of_ne (codePoint '\r') (by decide) (by decide)
  have hnewline := @tail?_of_ne (codePoint '\n') (by decide) (by decide)
  have hblank := @tail?_of_ne (codePoint ' ') (by decide) (by decide)
  have hpair : replaceText "\r\n" " " (cellEscapes.escape text) =
      cellEscapes.escape (replaceText "\r\n" " " text) :=
    replaceText_escape_pair hreturn hnewline hblank (by decide) (by decide) text
  have hfeed : ∀ s : Str, replaceText "\n" " " (cellEscapes.escape s) =
      cellEscapes.escape (replaceText "\n" " " s) := fun s =>
    replaceText_escape_char hnewline hblank (by decide) (by decide) s
  have hcarriage : ∀ s : Str, replaceText "\r" " " (cellEscapes.escape s) =
      cellEscapes.escape (replaceText "\r" " " s) := fun s =>
    replaceText_escape_char hreturn hblank (by decide) (by decide) s
  have hspace : ∀ c, isSpace c = true → cellEscapes.tail? c = none := by
    intro c hc
    apply tail?_of_ne
    · rintro rfl
      exact absurd hc (by decide)
    · rintro rfl
      exact absurd hc (by decide)
  have hline : oneLine (cellEscapes.escape text) = cellEscapes.escape (oneLine text) := by
    rw [oneLine, oneLine, hpair, hfeed, hcarriage]
  rw [cell, hescape, hline]
  have htails : ∀ entry ∈ cellEscapes.table, ∃ d ∈ entry.2.getLast?, isSpace d = false := by
    intro entry hentry
    rw [cellEscapes, List.mem_cons, List.mem_singleton] at hentry
    rcases hentry with rfl | rfl
    · exact ⟨codePoint '\\', rfl, by decide⟩
    · exact ⟨codePoint '|', rfl, by decide⟩
  exact strip_escape hspace (by decide) htails _

/-- What `_cell` writes is read back. -/
theorem held_cell (value : Str) : Printed.Held ⟨.text value, cell value⟩ := by
  have hstripped : strip (cell value) = cell value := stripChars_idem _
  have hwithin : ∀ c ∈ strip (oneLine value), endsLine c = false := fun c hc =>
    unbroken_oneLine value c ((stripChars_within _).subset hc)
  refine ⟨fun c hc => ?_, codePoint ' ' :: (cell value ++ [codePoint ' ']), ?_, ?_⟩
  · dsimp only at hc
    rw [cell_eq] at hc
    rcases Escapes.mem_escape hc with hin | rfl | ⟨entry, hentry, hin⟩
    · exact hwithin c hin
    · decide
    · have htails : ∀ entry ∈ cellEscapes.table, entry.2.all (fun c => !endsLine c) = true := by decide
      simpa using List.all_eq_true.mp (htails entry hentry) c hin
  · have hpieces := @pieces_escape CodePoint _ (codePoint '|') cellEscapes (by decide) (by decide) (by decide)
      (by decide) (strip (oneLine value)) [codePoint ' ']
    rw [← cell_eq] at hpieces
    show pieces (codePoint '\\') (codePoint '|') (codePoint ' ' :: (cell value ++ [codePoint ' '])) = _
    rw [pieces_cons (by decide) (by decide)]
    show List.modifyHead _ (pieces cellEscapes.mark (codePoint '|') _) = _
    rw [hpieces]
    rfl
  · show cellEscapes.unescape (strip (codePoint ' ' :: (cell value ++ [codePoint ' ']))) =
      strip (oneLine value)
    rw [strip_padded_text, hstripped, cell_eq]
    exact Escapes.unescape_escape_nil cellEscapes_sound cellEscapes_readBy _

/-! ## The tables -/

/-- The value of a field. -/
def fieldText : Field → Str
  | .text value => value
  | .code value => value

/-- The tables of a guard comment are read back; without a scan there are none. -/
def GuardTablesRead (changes : List ContractChange) (blocking : List Finding) (scanned : Bool) :
    Prop :=
  scanned = true →
    TableReads changesHeader changeFields changes (changes.map changeRow) ∧
      TableReads blockingHeader blockingFields blocking (blocking.map blockingRow)

/-- The table of a diff is read back. -/
def DiffTableRead (diff : EnvironmentDiff) : Prop :=
  TableReads diffHeader diffFields diff.entries (diff.entries.map diffRow)

/-- A change that a row can hold as it is. -/
structure PlainChange (change : ContractChange) : Prop where
  path : PlainCode change.path
  kind : PlainText change.kind

/-- An entry that a row can hold as it is. -/
structure PlainEntry (e : DiffEntry) : Prop where
  component : PlainText e.component
  name : PlainText e.name
  aValue : ∀ value ∈ e.aValue, PlainText value
  bValue : ∀ value ∈ e.bValue, PlainText value

theorem changeTable_iff (changes : List ContractChange) :
    TableReads changesHeader changeFields changes (changes.map changeRow) ↔
      ∀ change ∈ changes, PlainChange change := by
  have hlen : (rowCells changesHeader).length = 2 := by decide
  rw [@tableReads_iff _ changesHeader changeFields changeRow
    (fun change => [⟨.code change.path, codeSpan change.path⟩, ⟨.text change.kind, change.kind⟩])
    (fun _ => hlen) (fun _ => rfl) (fun _ => rfl)]
  refine forall₂_congr fun change _ => ?_
  rw [List.forall_mem_cons, List.forall_mem_singleton, held_code_iff, held_text_iff]
  exact ⟨fun h => ⟨h.1, h.2⟩, fun h => ⟨h.path, h.kind⟩⟩

theorem blockingTable_iff (blocking : List Finding) :
    TableReads blockingHeader blockingFields blocking (blocking.map blockingRow) ↔
      ∀ finding ∈ blocking, PlainCode finding.ruleId := by
  have hlen : (rowCells blockingHeader).length = 3 := by decide
  rw [@tableReads_iff _ blockingHeader blockingFields blockingRow
    (fun finding => [⟨.code finding.ruleId, codeSpan finding.ruleId⟩,
      ⟨.text finding.summary, cell finding.summary⟩,
      ⟨.text (fixHint finding), cell (fixHint finding)⟩])
    (fun _ => hlen) (fun _ => rfl) (fun _ => rfl)]
  refine forall₂_congr fun finding _ => ?_
  rw [List.forall_mem_cons, List.forall_mem_cons, List.forall_mem_singleton, held_code_iff]
  exact ⟨fun h => h.1, fun h => ⟨h, held_cell _, held_cell _⟩⟩

theorem plainText_of_all {s : Str}
    (h : s.all (fun c => c != codePoint '|' && c != codePoint '\\' && !endsLine c) = true) :
    PlainText s := by
  rw [List.all_eq_true] at h
  simp only [Bool.and_eq_true, bne_iff_ne, Bool.not_eq_true'] at h
  refine ⟨fun hin => (h _ hin).1.1 rfl, fun hin => ?_, fun c hc => (h c hc).2⟩
  exact (h (codePoint '\\') (hin.subset (by simp))).1.2 rfl

theorem plain_classificationText (classification : DiffClassification) :
    PlainText (classificationText classification) := by
  cases classification
  all_goals exact plainText_of_all (by decide)

theorem plain_valueOrDash (value : Option Str) :
    PlainText (valueOrDash value) ↔ ∀ text ∈ value, PlainText text := by
  have hdash : PlainText (lit "—") := plainText_of_all (by decide)
  cases value with
  | none => exact iff_of_true hdash fun text h => absurd h (Option.not_mem_none text)
  | some text =>
    cases text with
    | nil =>
      refine iff_of_true hdash fun text h => ?_
      rw [← Option.some.inj h]
      exact plainText_of_all rfl
    | cons c rest =>
      refine ⟨fun h text htext => ?_, fun h => h _ rfl⟩
      rw [← Option.some.inj htext]
      exact h

theorem diffTable_iff (diff : EnvironmentDiff) :
    DiffTableRead diff ↔ ∀ e ∈ diff.entries, PlainEntry e := by
  have hlen : (rowCells diffHeader).length = 6 := by decide
  have hcritical : ∀ critical : Bool, PlainText (if critical then "yes" else "") := by
    intro critical
    cases critical
    · exact plainText_of_all rfl
    · exact plainText_of_all (by decide)
  rw [DiffTableRead, @tableReads_iff _ diffHeader diffFields diffRow
    (fun e => (diffFields e).map fun field => ⟨field, fieldText field⟩)
    (fun _ => hlen) (fun _ => rfl) (fun _ => rfl)]
  refine forall₂_congr fun e _ => ?_
  simp only [diffFields, List.map_cons, List.map_nil, fieldText, List.forall_mem_cons,
    List.not_mem_nil, false_imp_iff, implies_true, and_true, held_text_iff, plain_valueOrDash]
  constructor
  · rintro ⟨hcomponent, hname, -, ha, hb, -⟩
    exact ⟨hcomponent, hname, ha, hb⟩
  · intro h
    exact ⟨h.component, h.name, plain_classificationText _, h.aValue, h.bValue, hcritical _⟩

end DevRepro.Reports
