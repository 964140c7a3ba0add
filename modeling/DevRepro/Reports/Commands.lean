import DevRepro.Core.VersionOrder
import DevRepro.Reports.Annotations

/-!
# Workflow commands and their reader

What the escapes keep out of a command, what a reader makes of it, and what the
cap leaves of each level.
-/

namespace DevRepro.Reports

open DevRepro.Python DevRepro.Lib DevRepro.Snapshots
open DevRepro.Mcp (Finding FindingState Evidence)

/-! ## Escapes -/

/-- The escapes of a message. -/
def messageEscapes : Escapes CodePoint where
  mark := codePoint '%'
  table := [(codePoint '%', "25"), (codePoint '\r', "0D"), (codePoint '\n', "0A")]

theorem escapeProperty_eq (value : Str) : escapeProperty value = percentEscapes.escape value := by
  have hstaged : Staged percentEscapes.mark percentEscapes.table := by decide
  exact replaceEach_eq_escape hstaged value

theorem escapeMessage_eq (value : Str) : escapeMessage value = messageEscapes.escape value := by
  have hstaged : Staged messageEscapes.mark messageEscapes.table := by decide
  exact replaceEach_eq_escape hstaged value

theorem percentEscapes_sound : percentEscapes.Sound := by
  constructor
  · decide
  · decide

theorem property_readBy : Escapes.ReadBy percentEscapes percentEscapes :=
  ⟨rfl, percentEscapes_sound.mark, fun _ h => h⟩

theorem message_readBy : Escapes.ReadBy messageEscapes percentEscapes := by
  constructor
  · rfl
  · decide
  · decide

theorem unescape_escapeProperty (value : Str) :
    percentEscapes.unescape (escapeProperty value) = value := by
  rw [escapeProperty_eq]
  exact Escapes.unescape_escape_nil percentEscapes_sound property_readBy value

theorem unescape_escapeMessage (value : Str) :
    percentEscapes.unescape (escapeMessage value) = value := by
  rw [escapeMessage_eq]
  exact Escapes.unescape_escape_nil percentEscapes_sound message_readBy value

/-- A character that a property does not have. -/
def inProperty (c : CodePoint) : Bool :=
  c ≠ codePoint '\r' && c ≠ codePoint '\n' && c ≠ codePoint ':' && c ≠ codePoint ','

theorem escapeProperty_clean {value : Str} {c : CodePoint} (h : c ∈ escapeProperty value) :
    inProperty c = true := by
  have hnot : ∀ d ∈ [codePoint '\r', codePoint '\n', codePoint ':', codePoint ','],
      d ∉ escapeProperty value := by
    intro d hd
    rw [escapeProperty_eq]
    simp only [List.mem_cons, List.not_mem_nil, or_false] at hd
    rcases hd with rfl | rfl | rfl | rfl
    all_goals
      apply Escapes.not_mem_escape
      · decide
      · decide
      · decide
  by_contra hbad
  simp only [inProperty, Bool.and_eq_true, decide_eq_true_eq, not_and_or, not_not, ne_eq] at hbad
  rcases hbad with ((hbad | hbad) | hbad) | hbad
  all_goals exact hnot c (by simp [hbad]) h

theorem escapeMessage_unbroken (value : Str) : Unbroken endsLine (escapeMessage value) := by
  intro c hc
  rw [escapeMessage_eq] at hc
  have hnewline : c ≠ codePoint '\n' := by
    rintro rfl
    exact Escapes.not_mem_escape (by decide) (by decide) (by decide) value hc
  have hreturn : c ≠ codePoint '\r' := by
    rintro rfl
    exact Escapes.not_mem_escape (by decide) (by decide) (by decide) value hc
  simp [endsLine, hnewline, hreturn]

/-! ## Numbers -/

/-- `0123456789` and the sign. -/
def isNumeral (c : CodePoint) : Bool := (0x30 ≤ c.val && c.val ≤ 0x39) || c == codePoint '-'

theorem natStr_numeral (n : Nat) : ∀ c ∈ natStr n, isNumeral c = true := by
  have hdigit : ∀ d : Fin 10, isNumeral (digit d.val) = true := by decide
  induction n using Nat.strongRecOn with
  | ind n ih =>
    intro c hc
    rcases Nat.lt_or_ge n 10 with hlt | hge
    · rw [natStr_of_lt hlt, List.mem_singleton] at hc
      rw [hc]
      exact hdigit ⟨n, hlt⟩
    · rw [natStr_of_le hge, List.mem_append, List.mem_singleton] at hc
      rcases hc with hrest | hlast
      · exact ih (n / 10) (Nat.div_lt_self (by omega) (by decide)) c hrest
      · rw [hlast]
        exact hdigit ⟨n % 10, Nat.mod_lt n (by decide)⟩

theorem intStr_numeral (n : Int) : ∀ c ∈ intStr n, isNumeral c = true := by
  intro c hc
  rw [intStr] at hc
  split_ifs at hc
  · rcases List.mem_cons.mp hc with hsign | hdigits
    · rw [hsign]
      decide
    · exact natStr_numeral _ c hdigits
  · exact natStr_numeral _ c hc

theorem inProperty_of_isNumeral {c : CodePoint} (h : isNumeral c = true) : inProperty c = true := by
  have hall : ∀ d ∈ [codePoint '\r', codePoint '\n', codePoint ':', codePoint ','],
      isNumeral d = false := by simp [isNumeral, codePoint]
  by_contra hbad
  simp only [inProperty, Bool.and_eq_true, decide_eq_true_eq, not_and_or, not_not, ne_eq] at hbad
  have hin : c ∈ [codePoint '\r', codePoint '\n', codePoint ':', codePoint ','] := by
    rcases hbad with ((hbad | hbad) | hbad) | hbad
    all_goals simp [hbad]
  rw [hall c hin] at h
  exact absurd h Bool.false_ne_true

/-! ## Cuts -/

/-- A text without the first character of a separator is cut behind it. -/
theorem cut_append {first : CodePoint} {sep before : Str} (h : first ∉ before) (behind : Str) :
    cut (first :: sep) (before ++ (first :: sep ++ behind)) = some (before, behind) := by
  induction before with
  | nil =>
    have hstart : (first :: sep).isPrefixOf (first :: sep ++ behind) = true :=
      List.isPrefixOf_iff_prefix.mpr (List.prefix_append _ _)
    rw [List.cons_append] at hstart
    rw [List.nil_append, List.cons_append, cut, if_pos hstart, ← List.cons_append, List.drop_left]
  | cons c before ih =>
    rw [List.mem_cons, not_or] at h
    have hstart : (first :: sep).isPrefixOf (c :: (before ++ (first :: sep ++ behind))) = false := by
      rw [List.isPrefixOf, beq_eq_false_iff_ne.mpr h.1, Bool.false_and]
    rw [List.cons_append, cut, hstart, if_neg Bool.false_ne_true, ih h.2]
    rfl

/-- A property with a value that needs no escape, or was escaped. -/
theorem decodeProperty_eq {name value text : Str} (hname : codePoint '=' ∉ name)
    (hvalue : percentEscapes.unescape text = value) :
    decodeProperty (name ++ lit "=" ++ text) = some (name, value) := by
  rw [decodeProperty, List.append_assoc]
  rw [show cut (lit "=") (name ++ (lit "=" ++ text)) = some (name, text) from cut_append hname text,
    Option.map_some, hvalue]

/-! ## One command -/

/-- The properties that a reader should find. -/
def propertiesOf (a : Annotation) : List (Str × Str) :=
  (match a.path with
    | none | some [] => []
    | some path => (lit "file", path) ::
        (a.line.map fun line => (lit "line", intStr line)).toList) ++ [(lit "title", a.title)]

/-- The command that a reader should find. -/
def commandOf (a : Annotation) : Command := ⟨a.level.name, propertiesOf a, a.message⟩

theorem inProperty_append {s t : Str} :
    (∀ c ∈ s ++ t, inProperty c = true) ↔
      (∀ c ∈ s, inProperty c = true) ∧ ∀ c ∈ t, inProperty c = true :=
  List.forall_mem_append

/-- What a property may have in it. -/
theorem commandProperties_clean {a : Annotation} {property : Str}
    (h : property ∈ commandProperties a) : ∀ c ∈ property, inProperty c = true := by
  have hname : ∀ name ∈ [lit "file=", lit "line=", lit "title="], ∀ value : Str,
      (∀ c ∈ value, inProperty c = true) → ∀ c ∈ name ++ value, inProperty c = true := by
    have hnames : ∀ name ∈ [lit "file=", lit "line=", lit "title="],
        name.all inProperty = true := by decide
    intro name hmem value hvalue
    exact inProperty_append.mpr ⟨List.all_eq_true.mp (hnames name hmem), hvalue⟩
  rw [commandProperties, List.mem_append, List.mem_singleton] at h
  rcases h with h | rfl
  · cases hpath : a.path with
    | none => simp [hpath] at h
    | some path =>
      cases path with
      | nil => simp [hpath] at h
      | cons d rest =>
        rw [hpath] at h
        rcases List.mem_cons.mp h with rfl | hline
        · exact hname _ (by simp) _ fun c hc => escapeProperty_clean hc
        · rcases Option.map_eq_some_iff.mp (Option.mem_toList.mp hline) with ⟨line, _, rfl⟩
          exact hname _ (by simp) _ fun c hc => inProperty_of_isNumeral (intStr_numeral line c hc)
  · exact hname _ (by simp) _ fun c hc => escapeProperty_clean hc

theorem intStr_unescape (n : Int) : percentEscapes.unescape (intStr n) = intStr n := by
  apply Escapes.unescape_eq_self
  intro hmark
  exact absurd (intStr_numeral n _ hmark) (by decide)

/-- The properties of a command are read back. -/
theorem decode_commandProperties (a : Annotation) :
    (commandProperties a).filterMap decodeProperty = propertiesOf a := by
  have hfile : ∀ path, decodeProperty (lit "file=" ++ escapeProperty path) =
      some (lit "file", path) := fun path =>
    @decodeProperty_eq (lit "file") _ _ (by decide) (unescape_escapeProperty path)
  have hline : ∀ line, decodeProperty (lit "line=" ++ intStr line) =
      some (lit "line", intStr line) := fun line =>
    @decodeProperty_eq (lit "line") _ _ (by decide) (intStr_unescape line)
  have htitle : ∀ title, decodeProperty (lit "title=" ++ escapeProperty title) =
      some (lit "title", title) := fun title =>
    @decodeProperty_eq (lit "title") _ _ (by decide) (unescape_escapeProperty title)
  rw [commandProperties, propertiesOf, List.filterMap_append]
  congr 1
  · cases a.path with
    | none => rfl
    | some path =>
      cases path with
      | nil => rfl
      | cons d rest =>
        cases a.line with
        | none => simp [hfile]
        | some line => simp [hfile, hline]
  · simp [htitle]

theorem levelName_clean (level : AnnotationLevel) :
    codePoint ' ' ∉ level.name ∧ (∀ c ∈ level.name, inProperty c = true) := by
  cases level
  · exact ⟨by decide, List.all_eq_true.mp (by decide)⟩
  · exact ⟨by decide, List.all_eq_true.mp (by decide)⟩
  · exact ⟨by decide, List.all_eq_true.mp (by decide)⟩

theorem commandProperties_ne_nil (a : Annotation) : commandProperties a ≠ [] := by
  rw [commandProperties]
  exact List.append_ne_nil_of_right_ne_nil _ (List.cons_ne_nil _ _)

/-- The properties, joined. -/
theorem joined_clean (a : Annotation) :
    ∀ c ∈ join "," (commandProperties a), inProperty c = true ∨ c = codePoint ',' := by
  intro c hc
  rcases mem_join hc with hsep | ⟨property, hproperty, hin⟩
  · exact Or.inr (List.mem_singleton.mp hsep)
  · exact Or.inl (commandProperties_clean hproperty c hin)

/-- A command is read as it was rendered. -/
theorem decode_commandLine (a : Annotation) : decodeCommand (commandLine a) = some (commandOf a) := by
  have hlevel := levelName_clean a.level
  have hcolon : codePoint ':' ∉ a.level.name ++ lit " " ++ join "," (commandProperties a) := by
    simp only [List.mem_append, not_or]
    refine ⟨⟨fun h => absurd (hlevel.2 _ h) (by decide), by decide⟩, fun h => ?_⟩
    rcases joined_clean a _ h with hclean | hcomma
    · exact absurd hclean (by decide)
    · exact absurd hcomma (by decide)
  have hline : (commandLine a).drop 2 = (a.level.name ++ lit " " ++ join "," (commandProperties a)) ++
      (lit "::" ++ escapeMessage a.message) := by
    rw [commandLine]
    simp only [List.append_assoc]
    rfl
  have hstart : startsWith (commandLine a) "::" = true := by
    rw [commandLine]
    simp only [List.append_assoc]
    exact List.isPrefixOf_iff_prefix.mpr (List.prefix_append _ _)
  have hcut : cut (lit "::") ((commandLine a).drop 2) =
      some (a.level.name ++ lit " " ++ join "," (commandProperties a), escapeMessage a.message) := by
    rw [hline]
    exact cut_append hcolon _
  have hspace : cut (lit " ") (a.level.name ++ lit " " ++ join "," (commandProperties a)) =
      some (a.level.name, join "," (commandProperties a)) := by
    rw [List.append_assoc]
    exact cut_append hlevel.1 _
  have hsplit : (join "," (commandProperties a)).splitOn (codePoint ',') = commandProperties a := by
    rw [join_eq_intercalate]
    refine List.splitOn_intercalate _ (fun property hproperty hcomma => ?_)
      (commandProperties_ne_nil a)
    exact absurd (commandProperties_clean hproperty _ hcomma) (by decide)
  rw [decodeCommand, if_pos hstart, hcut, Option.map_some, hspace]
  dsimp only
  rw [hsplit, decode_commandProperties, unescape_escapeMessage, commandOf]

/-- A command is one line. -/
theorem commandLine_unbroken (a : Annotation) : Unbroken endsLine (commandLine a) := by
  have hclean : ∀ c, inProperty c = true → endsLine c = false := by
    intro c hc
    simp only [inProperty, Bool.and_eq_true, decide_eq_true_eq] at hc
    simp [endsLine, hc.1.1.1, hc.1.1.2]
  have hliteral : ∀ s : String, (lit s).all (fun c => !endsLine c) = true →
      Unbroken endsLine (lit s) := by
    intro s hs c hc
    simpa using List.all_eq_true.mp hs c hc
  have hjoined : Unbroken endsLine (join "," (commandProperties a)) := by
    intro c hc
    rcases joined_clean a c hc with h | h
    · exact hclean c h
    · rw [h]
      decide
  rw [commandLine]
  simp only [unbroken_append]
  exact ⟨⟨⟨⟨⟨hliteral _ (by decide), fun c hc => hclean c ((levelName_clean a.level).2 c hc)⟩,
    hliteral _ (by decide)⟩, hjoined⟩, hliteral _ (by decide)⟩, escapeMessage_unbroken _⟩

/-! ## Truncation notices -/

/-- A character of a notice. -/
def inNotice (c : CodePoint) : Bool := c ≠ codePoint '%' && !endsLine c

theorem furtherText_clean (limit : Int) (level : AnnotationLevel) (count : Nat) :
    ∀ c ∈ furtherText limit level count, inNotice c = true := by
  have hnumeral : ∀ c, isNumeral c = true → inNotice c = true := by
    intro c hc
    have hproperty := inProperty_of_isNumeral hc
    have hmark : c ≠ codePoint '%' := by
      rintro rfl
      exact absurd hc (by decide)
    simp only [inProperty, Bool.and_eq_true, decide_eq_true_eq] at hproperty
    simp [inNotice, endsLine, hmark, hproperty.1.1.1, hproperty.1.1.2]
  have hlevel : ∀ c ∈ level.name, inNotice c = true := by
    cases level
    · exact List.all_eq_true.mp (by decide)
    · exact List.all_eq_true.mp (by decide)
    · exact List.all_eq_true.mp (by decide)
  rw [furtherText]
  simp only [List.forall_mem_append]
  refine ⟨⟨⟨⟨⟨⟨⟨fun c hc => hnumeral c (natStr_numeral count c hc), ?_⟩, hlevel⟩, ?_⟩, ?_⟩,
    fun c hc => hnumeral c (intStr_numeral limit c hc)⟩, ?_⟩, ?_⟩
  all_goals exact List.all_eq_true.mp (by decide)

/-- The command of a truncation notice. -/
def noticeCommand (limit : Int) (level : AnnotationLevel) (count : Nat) : Command :=
  ⟨"notice", [("title", "devrepro")], furtherText limit level count⟩

theorem decode_noticeLine (limit : Int) (level : AnnotationLevel) (count : Nat) :
    decodeCommand (noticeLine limit level count) = some (noticeCommand limit level count) := by
  have hline : noticeLine limit level count =
      lit "::" ++ (lit "notice title=devrepro" ++ (lit "::" ++ furtherText limit level count)) := rfl
  have hstart : startsWith (noticeLine limit level count) "::" = true := by
    rw [hline]
    exact List.isPrefixOf_iff_prefix.mpr (List.prefix_append _ _)
  have hcut : cut (lit "::") ((noticeLine limit level count).drop 2) =
      some (lit "notice title=devrepro", furtherText limit level count) := by
    rw [hline]
    exact cut_append (by decide) _
  have hspace : cut (lit " ") (lit "notice title=devrepro") =
      some (lit "notice", lit "title=devrepro") := by decide
  have hproperties : ((lit "title=devrepro").splitOn (codePoint ',')).filterMap decodeProperty =
      [(lit "title", lit "devrepro")] := by decide
  have hdata : percentEscapes.unescape (furtherText limit level count) =
      furtherText limit level count := by
    apply Escapes.unescape_eq_self
    intro hmark
    exact absurd (furtherText_clean limit level count _ hmark) (by decide)
  rw [decodeCommand, if_pos hstart, hcut, Option.map_some, hspace]
  dsimp only
  rw [hproperties, hdata]
  rfl

theorem noticeLine_unbroken (limit : Int) (level : AnnotationLevel) (count : Nat) :
    Unbroken endsLine (noticeLine limit level count) := by
  have hstart : (lit "::notice title=devrepro::").all (fun c => !endsLine c) = true := by
    decide
  rw [noticeLine, unbroken_append]
  constructor
  · intro c hc
    simpa using List.all_eq_true.mp hstart c hc
  · intro c hc
    have hclean := furtherText_clean limit level count c hc
    simp only [inNotice, Bool.and_eq_true] at hclean
    simpa using hclean.2

/-! ## The cap -/

/-- How many annotations have a level. -/
def levelCount (level : AnnotationLevel) (annotations : List Annotation) : Nat :=
  annotations.countP fun a => a.level = level

/-- What the loop of `_capped` knows about the annotations that it has seen. -/
structure CapInvariant (limit : Int) (done : List Annotation) (s : Capping) : Prop where
  seen : ∀ level, countOf s.seen level = levelCount level done
  kept : ∀ level, s.kept.filter (fun a => a.level = level) =
    (done.filter fun a => a.level = level).take limit.toNat
  inOrder : s.kept.Sublist done
  dropped : ∀ level, s.dropped.get? level =
    if levelCount level done ≤ limit.toNat then none
    else some (levelCount level done - limit.toNat)

theorem levelCount_snoc (level : AnnotationLevel) (done : List Annotation) (a : Annotation) :
    levelCount level (done ++ [a]) = levelCount level done + if a.level = level then 1 else 0 := by
  rw [levelCount, levelCount, List.countP_append, List.countP_singleton]
  simp

theorem countOf_set (counts : Dict AnnotationLevel Nat) (level other : AnnotationLevel) (n : Nat) :
    countOf (counts.set level n) other = if level = other then n else countOf counts other := by
  rw [countOf, Dict.get?_set]
  by_cases hlevel : level = other
  · rw [if_pos hlevel.symm, if_pos hlevel, Option.getD_some]
  · rw [if_neg (Ne.symm hlevel), if_neg hlevel, countOf]

theorem capInvariant_step {limit : Int} {done : List Annotation} {s : Capping}
    (h : CapInvariant limit done s) (a : Annotation) :
    CapInvariant limit (done ++ [a]) (capStep limit s a) := by
  have hseen : ∀ level, countOf (s.seen.set a.level (countOf s.seen a.level + 1)) level =
      levelCount level (done ++ [a]) := by
    intro level
    rw [countOf_set, levelCount_snoc]
    split_ifs with hlevel
    · rw [h.seen, hlevel]
    · rw [h.seen, Nat.add_zero]
  have hlength : ∀ level, (done.filter fun a => a.level = level).length = levelCount level done :=
    fun level => List.countP_eq_length_filter.symm
  have hother : ∀ level, a.level ≠ level →
      (done ++ [a]).filter (fun a => a.level = level) = done.filter fun a => a.level = level := by
    intro level hne
    rw [List.filter_append, List.filter_cons_of_neg (by simpa using hne), List.filter_nil,
      List.append_nil]
  have hsame : (done ++ [a]).filter (fun b => b.level = a.level) =
      (done.filter fun b => b.level = a.level) ++ [a] := by
    rw [List.filter_append, List.filter_cons_of_pos (by simp), List.filter_nil]
  have hcount := levelCount_snoc a.level done a
  rw [if_pos rfl] at hcount
  rw [capStep, hseen]
  by_cases hroom : (levelCount a.level (done ++ [a]) : Int) ≤ limit
  · have hle : levelCount a.level done + 1 ≤ limit.toNat := by omega
    rw [if_pos hroom]
    constructor
    · exact hseen
    · intro level
      by_cases hlevel : a.level = level
      · rw [← hlevel, hsame, List.filter_append, h.kept, List.filter_cons_of_pos (by simp),
          List.filter_nil, List.take_of_length_le (by rw [hlength]; omega),
          List.take_of_length_le (by rw [List.length_append, hlength]; exact hle)]
      · rw [hother level hlevel, List.filter_append, h.kept,
          List.filter_cons_of_neg (by simpa using hlevel), List.filter_nil, List.append_nil]
    · exact h.inOrder.append (List.Sublist.refl _)
    · intro level
      rw [h.dropped, levelCount_snoc]
      by_cases hlevel : a.level = level
      · rw [if_pos hlevel, ← hlevel, if_pos (Nat.le_of_succ_le hle), if_pos hle]
      · rw [if_neg hlevel, Nat.add_zero]
  · have hfull : limit.toNat ≤ levelCount a.level done := by omega
    rw [if_neg hroom]
    constructor
    · exact hseen
    · intro level
      by_cases hlevel : a.level = level
      · rw [← hlevel, hsame, List.take_append_of_le_length (by rw [hlength]; exact hfull)]
        exact h.kept a.level
      · rw [hother level hlevel]
        exact h.kept level
    · exact h.inOrder.trans (List.sublist_append_left _ _)
    · intro level
      rw [Dict.get?_set, levelCount_snoc]
      by_cases hlevel : a.level = level
      · rw [if_pos hlevel.symm, if_pos hlevel, ← hlevel, if_neg (by omega), countOf, h.dropped]
        by_cases hexact : levelCount a.level done ≤ limit.toNat
        · rw [if_pos hexact, Option.getD_none]
          congr 1
          omega
        · rw [if_neg hexact, Option.getD_some]
          congr 1
          omega
      · rw [if_neg (Ne.symm hlevel), if_neg hlevel, Nat.add_zero]
        exact h.dropped level

/-- What `_capped` keeps and drops. -/
theorem capped_invariant (annotations : List Annotation) (limit : Int) :
    CapInvariant limit annotations (capped annotations limit) := by
  induction annotations using List.reverseRecOn with
  | nil =>
    constructor
    · exact fun _ => rfl
    · exact fun _ => List.take_nil.symm
    · exact List.Sublist.refl []
    · exact fun _ => rfl
  | append_singleton done a ih =>
    rw [capped, List.foldl_append]
    exact capInvariant_step ih a

/-! ## The whole output -/

/-- Lines that are not empty are read one by one. -/
theorem readCommands_unlines {lines : List Str}
    (h : ∀ line ∈ lines, Unbroken endsLine line ∧ line ≠ []) :
    readCommands (unlines (codePoint '\n') lines) = lines.map decodeCommand := by
  have hlines : lines.flatMap (linesOf endsLine) = lines := by
    have hsingle : ∀ line ∈ lines, linesOf endsLine line = [line] :=
      fun line hline => (h line hline).1.linesOf
    rw [List.flatMap_congr hsingle]
    exact List.flatMap_singleton' lines
  have hfilter : (lines ++ [[]]).filter (fun line => decide (line ≠ [])) = lines := by
    rw [List.filter_append, List.filter_eq_self.mpr fun line hline => decide_eq_true (h line hline).2]
    exact List.append_nil lines
  rw [readCommands, linesOf_unlines (by decide), hlines, hfilter]

theorem renderWorkflowCommands_eq (report : ScanReport) (limit : Int) :
    renderWorkflowCommands report limit = unlines (codePoint '\n') (workflowLines report limit) := by
  rw [renderWorkflowCommands]
  split_ifs with hempty
  · rw [hempty]
    rfl
  · exact join_newline hempty

theorem workflowLines_unbroken {report : ScanReport} {limit : Int} {line : Str}
    (h : line ∈ workflowLines report limit) : Unbroken endsLine line ∧ line ≠ [] := by
  rcases List.mem_append.mp h with hkept | hdropped
  · rcases List.mem_map.mp hkept with ⟨a, _, rfl⟩
    refine ⟨commandLine_unbroken a, ?_⟩
    rw [commandLine]
    simp only [List.append_assoc]
    exact List.cons_ne_nil _ _
  · rcases List.mem_map.mp hdropped with ⟨item, _, rfl⟩
    exact ⟨noticeLine_unbroken _ _ _, List.cons_ne_nil _ _⟩

/-- The commands of a report: the annotations that are kept, and a notice for each level that
has more. -/
def expectedCommands (report : ScanReport) (limit : Int) : List Command :=
  let s := capped (annotationsFor report) limit
  s.kept.map commandOf ++
    (droppedItems s.dropped).map fun item => noticeCommand limit item.1 item.2

/-- What is rendered is read back. -/
theorem readCommands_render (report : ScanReport) (limit : Int) :
    readCommands (renderWorkflowCommands report limit) =
      (expectedCommands report limit).map some := by
  rw [renderWorkflowCommands_eq, readCommands_unlines fun _ => workflowLines_unbroken,
    workflowLines, expectedCommands, List.map_append, List.map_append, List.map_map, List.map_map,
    List.map_map, List.map_map]
  congr 1
  · exact List.map_congr_left fun a _ => decode_commandLine a
  · exact List.map_congr_left fun item _ => decode_noticeLine limit item.1 item.2

theorem notAfter_total (f g : Finding) : (notAfter f g || notAfter g f) = true := by
  have hrules := le_total f.ruleId g.ruleId
  rw [← Core.strLe_iff, ← Core.strLe_iff] at hrules
  simp only [notAfter, Bool.or_eq_true, Bool.and_eq_true, decide_eq_true_eq, beq_iff_eq]
  rcases lt_trichotomy (stateOrder f.state) (stateOrder g.state) with hlt | heq | hgt
  · exact Or.inl (Or.inl hlt)
  · exact hrules.imp (fun h => Or.inr ⟨heq, h⟩) (fun h => Or.inr ⟨heq.symm, h⟩)
  · exact Or.inr (Or.inl hgt)

theorem notAfter_trans (f g h : Finding) (hfg : notAfter f g = true) (hgh : notAfter g h = true) :
    notAfter f h = true := by
  have hrules : strLe f.ruleId g.ruleId = true → strLe g.ruleId h.ruleId = true →
      strLe f.ruleId h.ruleId = true := by
    rw [Core.strLe_iff, Core.strLe_iff, Core.strLe_iff]
    exact le_trans
  simp only [notAfter, Bool.or_eq_true, Bool.and_eq_true, decide_eq_true_eq, beq_iff_eq] at hfg hgh ⊢
  rcases hfg with hfg | ⟨hfg, hleft⟩
  · rcases hgh with hgh | ⟨hgh, _⟩
    · exact Or.inl (hfg.trans hgh)
    · exact Or.inl (hgh ▸ hfg)
  · rcases hgh with hgh | ⟨hgh, hright⟩
    · exact Or.inl (hfg ▸ hgh)
    · exact Or.inr ⟨hfg.trans hgh, hrules hleft hright⟩

/-- The levels that were capped, with their counts. -/
theorem mem_droppedItems {annotations : List Annotation} {limit : Int} {level : AnnotationLevel}
    {count : Nat} :
    (level, count) ∈ droppedItems (capped annotations limit).dropped ↔
      0 < count ∧ levelCount level annotations = limit.toNat + count := by
  have hdropped := (capped_invariant annotations limit).dropped level
  rw [droppedItems, List.mem_mergeSort]
  constructor
  · intro hmem
    have hget := Dict.get?_of_mem hmem
    rw [hdropped] at hget
    split_ifs at hget with hroom
    have hcount := Option.some.inj hget
    dsimp only at hcount
    omega
  · intro ⟨hpos, hcount⟩
    rw [if_neg (by omega)] at hdropped
    have hsome : (capped annotations limit).dropped.get? level = some count := by
      rw [hdropped]
      congr 1
      omega
    rcases Option.map_eq_some_iff.mp hsome with ⟨item, hfound, hvalue⟩
    have hkey : decide (item.1 = level) = true := List.find?_some
      (p := fun item : AnnotationLevel × Nat => decide (item.1 = level)) hfound
    rw [← hvalue, ← of_decide_eq_true hkey]
    exact List.mem_of_find?_eq_some hfound

theorem droppedItems_once (annotations : List Annotation) (limit : Int) :
    ((droppedItems (capped annotations limit).dropped).map Prod.fst).Nodup := by
  have hperm := List.mergeSort_perm (capped annotations limit).dropped.items
    fun a b => strLe a.1.name b.1.name
  exact (hperm.map Prod.fst).nodup_iff.mpr (capped annotations limit).dropped.nodup

theorem interesting_perm (report : ScanReport) :
    (interesting report).Perm (report.findings.filter fun f => f.state ≠ .pass) :=
  List.mergeSort_perm _ _

/-- A reader of the output gets the kept annotations and the counts of the others back. -/
structure CommandsSurvive (report : ScanReport) (limit : Int) : Prop where
  /-- The annotations are those of the findings that are not `PASS`, the most severe first. -/
  findings : (interesting report).Perm (report.findings.filter fun f => f.state ≠ .pass)
  ordered : (interesting report).Pairwise fun f g => notAfter f g = true
  /-- Every line is one command, with the texts of one kept annotation or of a notice. -/
  lines : readCommands (renderWorkflowCommands report limit) =
    ((capped (annotationsFor report) limit).kept.map fun a => some (commandOf a)) ++
      (droppedItems (capped (annotationsFor report) limit).dropped).map fun item =>
        some (noticeCommand limit item.1 item.2)
  inOrder : (capped (annotationsFor report) limit).kept.Sublist (annotationsFor report)
  /-- The first ones of each level are kept. -/
  kept : ∀ level, (capped (annotationsFor report) limit).kept.filter (fun a => a.level = level) =
    ((annotationsFor report).filter fun a => a.level = level).take limit.toNat
  /-- A level has one notice, with the number of the others, if there are any. -/
  counted : ∀ level count, (level, count) ∈ droppedItems (capped (annotationsFor report) limit).dropped ↔
    0 < count ∧ count = levelCount level (annotationsFor report) -
      min limit.toNat (levelCount level (annotationsFor report))
  once : ((droppedItems (capped (annotationsFor report) limit).dropped).map Prod.fst).Nodup

theorem commands_survive (report : ScanReport) (limit : Int) : CommandsSurvive report limit := by
  have hcap := capped_invariant (annotationsFor report) limit
  constructor
  · exact interesting_perm report
  · exact List.pairwise_mergeSort notAfter_trans notAfter_total _
  · rw [readCommands_render, expectedCommands, List.map_append, List.map_map, List.map_map]
    rfl
  · exact hcap.inOrder
  · exact hcap.kept
  · intro level count
    rw [mem_droppedItems]
    omega
  · exact droppedItems_once _ _

/-- A finding whose text looks like commands. -/
example : decodeCommand (commandLine ⟨.warning, "a:b,c", "50%\n::error::x", some "src/a,b.py", none⟩) =
    some ⟨"warning", [(lit "file", lit "src/a,b.py"), (lit "title", lit "a:b,c")],
      "50%\n::error::x"⟩ := by decide

end DevRepro.Reports
