import DevRepro.Reports.JunitReading

/-!
# JUnit reports that are read

With its markup left alone, a JUnit report is read as the tags that were written, and
is what a reader relies on exactly when its characters are XML characters and no
finding is unknown (`junitOk_iff_of_kept`).
-/

namespace DevRepro.Reports

open DevRepro.Python DevRepro.Lib DevRepro.Privacy DevRepro.Snapshots
open DevRepro.Mcp (Finding FindingState Evidence)

variable {normcase : Str → Str} {gate : PrivacyGate normcase}

/-! ## What is written -/

theorem junit_values (val txt : Str → Str) (report : ScanReport) :
    ∀ item ∈ junitTags val txt report, ∀ value ∈ tagValues item.1, ∃ s, value = val s := by
  have hnone : ∀ value ∈ ([] : List Str), ∃ s, value = val s := fun _ hvalue =>
    absurd hvalue List.not_mem_nil
  have hsuite : ∀ value ∈ (suiteAttrs val report).map Prod.snd, ∃ s, value = val s := by
    intro value hvalue
    simp only [suiteAttrs, List.map_cons, List.map_nil, List.mem_cons, List.not_mem_nil, or_false] at hvalue
    rcases hvalue with h | h | h | h | h | h
    all_goals exact ⟨_, h⟩
  have hcase : ∀ f, ∀ value ∈ (caseAttrs val f).map Prod.snd, ∃ s, value = val s := by
    intro f value hvalue
    simp only [caseAttrs, List.map_cons, List.map_nil, List.mem_cons, List.not_mem_nil, or_false] at hvalue
    rcases hvalue with h | h
    all_goals exact ⟨_, h⟩
  have hchild : ∀ f : Finding, ∀ value ∈ [val f.summary], ∃ s, value = val s := fun f =>
    List.forall_mem_singleton.mpr ⟨_, rfl⟩
  exact forall_junitTags hnone ⟨hsuite, hsuite, hnone⟩ (fun f => ⟨hcase f, hcase f, hnone⟩)
    fun f _ _ => ⟨hchild f, hchild f, hnone⟩

theorem junit_texts (val txt : Str → Str) (report : ScanReport) :
    ∀ item ∈ junitTags val txt report, item.2 = [] ∨ item.2 = lit "\n" ∨ ∃ s, item.2 = txt s :=
  forall_junitTags (Or.inr (Or.inl rfl)) ⟨Or.inl rfl, Or.inl rfl, Or.inl rfl⟩
    (fun _ => ⟨Or.inl rfl, Or.inl rfl, Or.inl rfl⟩)
    fun _ _ _ => ⟨Or.inr (Or.inr ⟨_, rfl⟩), Or.inl rfl, Or.inl rfl⟩

/-- What is written: no markup in it, and its references are references. -/
structure PlainWritten (s : Str) : Prop where
  lt : codePoint '<' ∉ s
  gt : codePoint '>' ∉ s
  references : referencesOk s = true

theorem plain_escapeAttrib (s : Str) : PlainWritten (escapeAttrib s) ∧ codePoint '"' ∉ escapeAttrib s := by
  have hknown : Escapes.ReadBy xmlReferences xmlReferences :=
    ⟨rfl, xmlReferences_sound.mark, fun _ h => h⟩
  rw [escapeAttrib_eq]
  refine ⟨⟨?_, ?_, referencesOk_escape hknown s⟩, ?_⟩
  all_goals
    apply Escapes.not_mem_escape
    · decide
    · decide
    · decide

theorem plain_escapeCdata (s : Str) : PlainWritten (escapeCdata s) := by
  have hknown : Escapes.ReadBy cdataEscapes xmlReferences := ⟨rfl, by decide, by decide⟩
  rw [escapeCdata_eq]
  refine ⟨?_, ?_, referencesOk_escape hknown s⟩
  all_goals
    apply Escapes.not_mem_escape
    · decide
    · decide
    · decide

/-- What is written stays so, when the redaction finds no more than the home path in it. -/
theorem PlainWritten.redact (h : PlainMachine gate) {s : Str} (hs : PlainWritten s)
    (hsame : Impersonal gate s) : PlainWritten (gate.redact s) := by
  have hlt := (impersonal_iff h hs.lt).mp hsame
  refine ⟨hlt, ?_, referencesOk_redact h s hs.references hlt⟩
  rw [hsame]
  exact not_mem_redactHome (by decide) hs.gt

/-- The tags of a report as they are written. -/
def writtenTags (report : ScanReport) : List (XmlTag × Str) := junitTags escapeAttrib escapeCdata report

/-- The tags of a report as they are printed. -/
def printedTags (gate : PrivacyGate normcase) (report : ScanReport) : List (XmlTag × Str) :=
  junitTags (gate.redact ∘ escapeAttrib) (gate.redact ∘ escapeCdata) report

theorem written_text (report : ScanReport) {item : XmlTag × Str} (h : item ∈ writtenTags report) :
    PlainWritten item.2 := by
  rcases junit_texts _ _ report item h with hnil | hline | ⟨s, hs⟩
  · rw [hnil]
    exact ⟨List.not_mem_nil, List.not_mem_nil, rfl⟩
  · rw [hline]
    exact ⟨by decide, by decide, by decide⟩
  · rw [hs]
    exact plain_escapeCdata s

theorem redact_newline (h : PlainMachine gate) {report : ScanReport}
    (hkept : MarkupKept gate (writtenTags report)) : gate.redact (lit "\n") = lit "\n" := by
  have hfirst : (XmlTag.declaration, lit "\n") ∈ writtenTags report :=
    List.mem_append_left _ (List.mem_singleton.mpr rfl)
  rw [hkept.texts _ hfirst]
  exact h.redactHome_eq (by decide) (by decide)

/-- The redaction of the tags. -/
theorem redact_junitTags (h : PlainMachine gate) {report : ScanReport}
    (hkept : MarkupKept gate (writtenTags report)) :
    gate.redact (xmlDocument (writtenTags report)) = xmlDocument (printedTags gate report) ∧
      printedTags gate report =
        (writtenTags report).map fun item => (item.1.mapValues gate.redact, gate.redact item.2) := by
  have hprinted : printedTags gate report =
      (writtenTags report).map fun item => (item.1.mapValues gate.redact, gate.redact item.2) :=
    (mapValues_junitTags gate.redact _ _ redact_nil (redact_newline h hkept) report).symm
  refine ⟨?_, hprinted⟩
  rw [xmlDocument, document, redact_printMarkup h.bracketless.lt h.bracketless.gt, List.map_map,
    xmlDocument, document, hprinted, List.map_map]
  congr 1
  refine List.map_congr_left fun item hitem => ?_
  show (gate.redact (rawTag item.1), gate.redact item.2) = _
  rw [redact_rawTag h (hkept.pieces item hitem)]
  rfl

theorem tagValues_mapValues (f : Str → Str) (tag : XmlTag) :
    tagValues (tag.mapValues f) = (tagValues tag).map f := by
  cases tag with
  | declaration => rfl
  | start name attrs => simp [tagValues, XmlTag.mapValues]
  | empty name attrs => simp [tagValues, XmlTag.mapValues]
  | close name => rfl

/-- What is printed: plain values and texts. -/
theorem printed_plain (h : PlainMachine gate) {report : ScanReport}
    (hkept : MarkupKept gate (writtenTags report)) {item : XmlTag × Str}
    (hitem : item ∈ printedTags gate report) :
    WellNamed item.1 ∧ PlainWritten item.2 ∧
      ∀ value ∈ tagValues item.1, PlainWritten value ∧ codePoint '"' ∉ value := by
  refine ⟨junitTags_named _ _ report item hitem, ?_⟩
  rw [(redact_junitTags h hkept).2] at hitem
  obtain ⟨written, hwritten, rfl⟩ := List.mem_map.mp hitem
  refine ⟨(written_text report hwritten).redact h (hkept.texts _ hwritten), fun printed hprinted => ?_⟩
  rw [tagValues_mapValues] at hprinted
  obtain ⟨value, hvalue, rfl⟩ := List.mem_map.mp hprinted
  have hsame := hkept.values _ hwritten value hvalue
  obtain ⟨s, rfl⟩ := junit_values _ _ report written hwritten value hvalue
  obtain ⟨hplain, hquote⟩ := plain_escapeAttrib s
  refine ⟨hplain.redact h hsame, ?_⟩
  rw [hsame]
  exact not_mem_redactHome (by decide) hquote

theorem printed_plainTag (h : PlainMachine gate) {report : ScanReport}
    (hkept : MarkupKept gate (writtenTags report)) :
    ∀ item ∈ (printedTags gate report).map (fun item => (rawTag item.1, item.2)),
      PlainTag (codePoint '<') (codePoint '>') item := by
  intro raw hraw
  obtain ⟨item, hitem, rfl⟩ := List.mem_map.mp hraw
  obtain ⟨hnamed, htext, hvalues⟩ := printed_plain h hkept hitem
  refine ⟨?_, ?_, htext.lt⟩
  · exact not_mem_rawTag hnamed (by decide) (by decide) (by decide) fun v hv => (hvalues v hv).1.lt
  · exact not_mem_rawTag hnamed (by decide) (by decide) (by decide) fun v hv => (hvalues v hv).1.gt

/-! ## Characters -/

theorem isXmlChar_of_isLocalChar {c : CodePoint} (h : isLocalChar c = true) : isXmlChar c = true := by
  simp only [isLocalChar, isWordChar, isAlnum, isLetter, Bool.or_eq_true, Bool.and_eq_true,
    decide_eq_true_eq, beq_iff_eq, Fin.ext_iff] at h
  simp only [isXmlChar, Bool.or_eq_true, Bool.and_eq_true, decide_eq_true_eq, beq_iff_eq]
  have hunder : (codePoint '_').val = 0x5F := rfl
  have hdot : (codePoint '.').val = 0x2E := rfl
  have hpercent : (codePoint '%').val = 0x25 := rfl
  have hplus : (codePoint '+').val = 0x2B := rfl
  have hminus : (codePoint '-').val = 0x2D := rfl
  omega

/-- A character that XML does not know stays where it is. -/
theorem PlainMachine.clear_illegal (h : PlainMachine gate) {c : CodePoint} (hc : isXmlChar c = false) :
    gate.Clear c := by
  have hne : ∀ d, isXmlChar d = true → c ≠ d := by
    rintro d hd rfl
    rw [hc] at hd
    exact Bool.false_ne_true hd
  have hlocal : isLocalChar c = false := by
    refine eq_false_of_ne_true fun hin => ?_
    rw [isXmlChar_of_isLocalChar hin] at hc
    exact Bool.noConfusion hc
  refine ⟨⟨hlocal, eq_false_of_ne_true fun hin => ?_, hne _ (by decide)⟩, fun v hv hin => ?_, fun hin => ?_⟩
  · -- The characters of a domain are among those of the first part.
    simp only [isDomainChar, Bool.or_eq_true, beq_iff_eq] at hin
    simp only [isLocalChar, isWordChar, Bool.or_eq_false_iff] at hlocal
    rcases hin with (hin | hin) | hin
    · rw [hlocal.1.1.1.1.1] at hin
      exact Bool.false_ne_true hin
    · exact hne _ (by decide) hin
    · exact hne _ (by decide) hin
  · rw [(h.variants v hv c hin).2] at hc
    exact Bool.noConfusion hc
  · rw [(h.username c hin).2] at hc
    exact Bool.noConfusion hc

theorem mem_of_mem_redact {c : CodePoint} {s : Str} (h : c ∈ gate.redact s) :
    c ∈ s ∨ c ∈ homePlaceholder ++ (userPlaceholder ++ emailPlaceholder) := by
  rcases mem_of_mem_subAll h with h | h
  · have huser : c ∈ gate.redactHome s ∨ c ∈ userPlaceholder := by
      unfold PrivacyGate.redactUser at h
      split_ifs at h
      · exact mem_of_mem_subAll h
      · exact Or.inl h
    rcases huser with hhome | hname
    · rcases mem_redactHome hhome with hin | htilde
      · exact Or.inl hin
      · exact Or.inr (List.mem_append_left _ (List.mem_singleton.mpr htilde))
    · exact Or.inr (List.mem_append_right _ (List.mem_append_left _ hname))
  · exact Or.inr (List.mem_append_right _ (List.mem_append_right _ h))

/-- The characters of a document are those of its tags and texts. -/
theorem legal_iff (h : PlainMachine gate) (items : List (XmlTag × Str)) :
    (gate.redact (xmlDocument items)).all isXmlChar = true ↔ LegalChars items := by
  have hplaceholders : (homePlaceholder ++ (userPlaceholder ++ emailPlaceholder)).all isXmlChar = true := by
    decide
  constructor
  · intro hall
    have hdoc : ∀ c ∈ xmlDocument items, isXmlChar c = true := by
      intro c hc
      by_contra hillegal
      have hstays := mem_redact (h.clear_illegal (eq_false_of_ne_true hillegal)) hc
      exact hillegal (List.all_eq_true.mp hall c hstays)
    intro item hitem
    have hmem : ∀ c, c ∈ rawTag item.1 ∨ c ∈ item.2 → c ∈ xmlDocument items := by
      intro c hc
      refine List.mem_flatMap.mpr ⟨(rawTag item.1, item.2), List.mem_map_of_mem hitem, ?_⟩
      rcases hc with hc | hc
      · exact List.mem_cons_of_mem _ (List.mem_append_left _ hc)
      · exact List.mem_cons_of_mem _ (List.mem_append_right _ (List.mem_cons_of_mem _ hc))
    exact ⟨List.all_eq_true.mpr fun c hc => hdoc c (hmem c (Or.inl hc)),
      List.all_eq_true.mpr fun c hc => hdoc c (hmem c (Or.inr hc))⟩
  · intro hlegal
    refine List.all_eq_true.mpr fun c hc => ?_
    rcases mem_of_mem_redact hc with hc | hc
    · obtain ⟨raw, hraw, hin⟩ := List.mem_flatMap.mp hc
      obtain ⟨item, hitem, rfl⟩ := List.mem_map.mp hraw
      rcases List.mem_cons.mp hin with rfl | hin
      · decide
      · rcases List.mem_append.mp hin with hin | hin
        · exact List.all_eq_true.mp (hlegal item hitem).1 c hin
        · rcases List.mem_cons.mp hin with rfl | hin
          · decide
          · exact List.all_eq_true.mp (hlegal item hitem).2 c hin
    · exact List.all_eq_true.mp hplaceholders c hc

/-! ## Reading -/

theorem mapM_readTag {items : List (XmlTag × Str)}
    (h : ∀ item ∈ items, readTag (rawTag item.1) = some item.1) :
    ((items.map fun item => (rawTag item.1, item.2)).map Prod.fst).mapM readTag =
      some (items.map Prod.fst) := by
  induction items with
  | nil => rfl
  | cons item items ih =>
    rw [List.forall_mem_cons] at h
    rw [List.map_cons, List.map_cons, List.mapM_cons, h.1, ih h.2]
    rfl

theorem getLast?_junitTags (val txt : Str → Str) (report : ScanReport) :
    ∃ tag, (junitTags val txt report).getLast? = some (tag, []) := by
  rw [junitTags]
  split_ifs
  · exact ⟨_, rfl⟩
  · rw [← List.append_assoc]
    exact ⟨_, List.getLast?_concat⟩

/-- The printed document is read as its tags, when its characters are legal. -/
theorem readXml_printed (h : PlainMachine gate) {report : ScanReport}
    (hkept : MarkupKept gate (writtenTags report)) :
    readXml (gate.redact (xmlDocument (writtenTags report))) =
      if (gate.redact (xmlDocument (writtenTags report))).all isXmlChar then
        some ((printedTags gate report).map Prod.fst)
      else none := by
  obtain ⟨hdoc, -⟩ := redact_junitTags h hkept
  have hne : codePoint '<' ≠ codePoint '>' := by decide
  have hplain := printed_plainTag h hkept
  have hitems : readMarkup (codePoint '<') (codePoint '>') (xmlDocument (printedTags gate report)) =
      (printedTags gate report).map fun item => (rawTag item.1, item.2) :=
    readMarkup_printMarkup hne hplain
  have hparts : (tagParts (codePoint '<') (xmlDocument (printedTags gate report))).all
      (fun part => part.contains (codePoint '>')) = true := by
    rw [xmlDocument, document, tagParts_printMarkup hne hplain, List.all_map, List.all_eq_true]
    intro raw _
    simp
  have hlead : (firstLine (fun c => decide (c = codePoint '<'))
      (xmlDocument (printedTags gate report))).isEmpty = true := rfl
  have htexts : ((printedTags gate report).map fun item => (rawTag item.1, item.2)).all
      (fun item => legalText item.2) = true := by
    rw [List.all_map, List.all_eq_true]
    intro item hitem
    have htext := (printed_plain h hkept hitem).2.1
    show (referencesOk item.2 && !item.2.contains (codePoint '>')) = true
    rw [htext.references, List.contains_eq_mem, decide_eq_false htext.gt]
    rfl
  have hread : ∀ item ∈ printedTags gate report, readTag (rawTag item.1) = some item.1 := by
    intro item hitem
    obtain ⟨hnamed, -, hvalues⟩ := printed_plain h hkept hitem
    exact readTag_rawTag hnamed fun v hv => ⟨(hvalues v hv).2, (hvalues v hv).1.references⟩
  have houtside : [(((printedTags gate report).map fun item => (rawTag item.1, item.2)).head?.map
      Prod.snd).getD [], (((printedTags gate report).map fun item =>
        (rawTag item.1, item.2)).getLast?.map Prod.snd).getD []].all isBlank = true := by
    obtain ⟨tag, hlast⟩ := getLast?_junitTags (gate.redact ∘ escapeAttrib) (gate.redact ∘ escapeCdata) report
    have hlast' : (printedTags gate report).getLast? = some (tag, []) := hlast
    rw [List.getLast?_map, hlast']
    show (isBlank (lit "\n") && (isBlank [] && true)) = true
    decide
  have hnested : wellNested ((printedTags gate report).map Prod.fst) = true :=
    wellNested_junitTags _ _ report
  rw [hdoc, readXml, hitems, hparts, hlead, htexts, houtside, mapM_readTag hread]
  dsimp only
  rw [if_pos hnested]
  simp only [Bool.and_true]

/-! ## Elements -/

theorem elements_append (name : Str) (tags others : List XmlTag) :
    elements name (tags ++ others) = elements name tags ++ elements name others :=
  List.filterMap_append

/-- The elements of a name, in the test cases of some findings. -/
theorem elements_cases (name : Str) (val txt : Str → Str) (findings : List Finding) :
    elements name ((findings.flatMap (caseTags val txt)).map Prod.fst) =
      findings.flatMap fun f => elements name ((caseTags val txt f).map Prod.fst) := by
  induction findings with
  | nil => rfl
  | cons f findings ih =>
    rw [List.flatMap_cons, List.map_append, elements_append, ih, List.flatMap_cons]

/-- The elements of a name, in a report. -/
theorem elements_junitTags (name : Str) (val txt : Str → Str) (report : ScanReport) :
    elements name ((junitTags val txt report).map Prod.fst) =
      (if lit "testsuite" = name then [suiteAttrs val report] else []) ++
        report.findings.flatMap fun f => elements name ((caseTags val txt f).map Prod.fst) := by
  have hsuite : ∀ attrs, elements name [XmlTag.start (lit "testsuite") attrs] =
      if lit "testsuite" = name then [attrs] else [] := by
    intro attrs
    by_cases hname : lit "testsuite" = name
    · simp [elements, hname]
    · simp [elements, hname]
  have hempty : ∀ attrs, elements name [XmlTag.empty (lit "testsuite") attrs] =
      if lit "testsuite" = name then [attrs] else [] := by
    intro attrs
    by_cases hname : lit "testsuite" = name
    · simp [elements, hname]
    · simp [elements, hname]
  have hdeclaration : elements name [XmlTag.declaration] = [] := rfl
  have hclose : elements name [XmlTag.close (lit "testsuite")] = [] := rfl
  rw [junitTags, List.map_append, elements_append]
  by_cases hnone : report.findings = []
  · rw [if_pos hnone, hnone, List.flatMap_nil, List.append_nil]
    exact hempty _
  · rw [if_neg hnone]
    simp only [List.map_append, elements_append, elements_cases, List.map_cons, List.map_nil, hsuite,
      hdeclaration, hclose, List.nil_append, List.append_nil]

theorem elements_case (name : Str) (val txt : Str → Str) (f : Finding) :
    elements name ((caseTags val txt f).map Prod.fst) =
      (if lit "testcase" = name then [caseAttrs val f] else []) ++
        if childName f.state = some name then [[(lit "message", val f.summary)]] else [] := by
  rw [caseTags]
  cases childName f.state with
  | none =>
    by_cases hname : lit "testcase" = name
    · simp [elements, hname]
    · simp [elements, hname]
  | some child =>
    by_cases hname : lit "testcase" = name
    · by_cases hchild : child = name
      · by_cases hempty : firstExcerpt f = []
        · simp [elements, childTags, hname, hchild, hempty]
        · simp [elements, childTags, hname, hchild, hempty]
      · by_cases hempty : firstExcerpt f = []
        · simp [elements, childTags, hname, hchild, hempty]
        · simp [elements, childTags, hname, hchild, hempty]
    · by_cases hchild : child = name
      · by_cases hempty : firstExcerpt f = []
        · simp [elements, childTags, hname, hchild, hempty]
        · simp [elements, childTags, hname, hchild, hempty]
      · by_cases hempty : firstExcerpt f = []
        · simp [elements, childTags, hname, hchild, hempty]
        · simp [elements, childTags, hname, hchild, hempty]

/-- The test cases are the findings, in order. -/
theorem elements_testcase (val txt : Str → Str) (report : ScanReport) :
    elements "testcase" ((junitTags val txt report).map Prod.fst) = report.findings.map (caseAttrs val) := by
  have hcase : ∀ f, elements "testcase" ((caseTags val txt f).map Prod.fst) = [caseAttrs val f] := by
    intro f
    have hchild : childName f.state ≠ some (lit "testcase") := by
      cases f.state
      all_goals decide
    rw [elements_case, if_pos rfl, if_neg hchild, List.append_nil]
  rw [elements_junitTags, if_neg (by decide), List.nil_append]
  simp only [hcase]
  exact List.map_eq_flatMap.symm

theorem elements_testsuite (val txt : Str → Str) (report : ScanReport) :
    elements "testsuite" ((junitTags val txt report).map Prod.fst) = [suiteAttrs val report] := by
  have hcase : ∀ f, elements "testsuite" ((caseTags val txt f).map Prod.fst) = [] := by
    intro f
    have hchild : childName f.state ≠ some (lit "testsuite") := by
      cases f.state
      all_goals decide
    rw [elements_case, if_neg (by decide), if_neg hchild, List.append_nil]
  rw [elements_junitTags, if_pos rfl]
  simp only [hcase]
  simp

/-- The elements inside the test cases are those of the states. -/
theorem length_elements_child (val txt : Str → Str) (report : ScanReport) {name : Str}
    (hsuite : lit "testsuite" ≠ name) (hcase : lit "testcase" ≠ name) :
    (elements name ((junitTags val txt report).map Prod.fst)).length =
      stateCount (fun s => childName s = some name) report.findings := by
  rw [elements_junitTags, if_neg hsuite, List.nil_append, stateCount]
  induction report.findings with
  | nil => rfl
  | cons f findings ih =>
    rw [List.flatMap_cons, List.length_append, ih, elements_case, if_neg hcase, List.nil_append,
      List.countP_cons, Nat.add_comm]
    by_cases hname : childName f.state = some name
    · simp [hname]
    · simp [hname]

/-! ## Counters -/

theorem natStr_injective {m n : Nat} (h : natStr m = natStr n) : m = n := by
  rw [← numberOf_natStr m, h, numberOf_natStr]

theorem escapeAttrib_natStr (n : Nat) : escapeAttrib (natStr n) = natStr n := by
  have hnone : (xmlReferences.table.map Prod.fst).all (fun c => !isNumeral c) = true := by decide
  rw [escapeAttrib_eq]
  have hsymbol : ∀ c ∈ natStr n, xmlReferences.symbol c = [c] := by
    intro c hc
    refine symbol_of_tail? ?_
    rw [Escapes.tail?, Option.map_eq_none_iff, List.find?_eq_none]
    intro entry hentry heq
    rw [decide_eq_true_eq] at heq
    have hother := List.all_eq_true.mp hnone c (List.mem_map.mpr ⟨entry, hentry, heq⟩)
    rw [natStr_numeral n c hc] at hother
    exact Bool.false_ne_true hother
  rw [Escapes.escape, List.flatMap_congr hsymbol]
  exact List.flatMap_singleton' _

/-- A counter is printed as it is. -/
theorem printed_counter (h : PlainMachine gate) {report : ScanReport}
    (hkept : MarkupKept gate (writtenTags report)) {key : Str} {n : Nat}
    (hattr : (key, escapeAttrib (natStr n)) ∈ suiteAttrs escapeAttrib report) :
    gate.redact (escapeAttrib (natStr n)) = natStr n := by
  have hsuite : ∃ item ∈ writtenTags report,
      tagValues item.1 = (suiteAttrs escapeAttrib report).map Prod.snd := by
    rw [writtenTags, junitTags]
    split_ifs
    · exact ⟨_, List.mem_append_right _ (List.mem_singleton.mpr rfl), rfl⟩
    · exact ⟨_, List.mem_append_right _ List.mem_cons_self, rfl⟩
  obtain ⟨item, hitem, hvalues⟩ := hsuite
  have hvalue : escapeAttrib (natStr n) ∈ tagValues item.1 :=
    hvalues ▸ List.mem_map.mpr ⟨_, hattr, rfl⟩
  have hclean : ∀ c, isNumeral c = false → c ∉ natStr n := by
    intro c hc hin
    rw [natStr_numeral n c hin] at hc
    exact Bool.noConfusion hc
  rw [hkept.values item hitem _ hvalue, escapeAttrib_natStr]
  exact h.redactHome_eq (hclean _ (by decide)) (hclean _ (by decide))

/-- With its markup left alone, a report is what a reader relies on exactly when its characters are
legal and no finding is unknown. -/
theorem junitOk_iff_of_kept (h : PlainMachine gate) {report : ScanReport}
    (hkept : MarkupKept gate (writtenTags report)) :
    JunitOk gate report (gate.redact (xmlDocument (writtenTags report))) ↔
      LegalChars (writtenTags report) ∧ ∀ f ∈ report.findings, f.state ≠ .unknown := by
  have htests := @printed_counter _ _ h report hkept (lit "tests") report.findings.length
    (by simp [suiteAttrs])
  have hfailures := @printed_counter _ _ h report hkept (lit "failures")
    (stateCount (fun s => s = .error || s = .blocked) report.findings) (by simp [suiteAttrs])
  have herrors : gate.redact (escapeAttrib (lit "0")) = natStr 0 :=
    @printed_counter _ _ h report hkept (lit "errors") 0
      (by simp only [suiteAttrs, List.mem_cons]; exact Or.inr (Or.inr (Or.inr (Or.inr (Or.inl rfl)))))
  have hunknown : stateCount (fun s => childName s = some (lit "error")) report.findings = 0 ↔
      ∀ f ∈ report.findings, f.state ≠ .unknown := by
    rw [stateCount, List.countP_eq_zero]
    refine forall₂_congr fun f _ => ?_
    rw [decide_eq_true_eq]
    cases f.state
    all_goals decide
  have hfailed : stateCount (fun s => childName s = some (lit "failure")) report.findings =
      stateCount (fun s => s = .error || s = .blocked) report.findings := by
    refine List.countP_congr fun f _ => ?_
    cases f.state
    all_goals decide
  have hcaseName : ∀ (val : Str → Str) (f : Finding),
      attr? (lit "name") (caseAttrs val f) = some (val f.ruleId) := fun _ _ => rfl
  have hsuiteTests : ∀ val : Str → Str, attr? (lit "tests") (suiteAttrs val report) =
      some (val (natStr report.findings.length)) := fun _ => rfl
  have hsuiteFailures : ∀ val : Str → Str, attr? (lit "failures") (suiteAttrs val report) =
      some (val (natStr (stateCount (fun s => s = .error || s = .blocked) report.findings))) :=
    fun _ => rfl
  have hsuiteErrors : ∀ val : Str → Str, attr? (lit "errors") (suiteAttrs val report) =
      some (val (lit "0")) := fun _ => rfl
  rw [← legal_iff h, JunitOk, readXml_printed h hkept]
  by_cases hall : (gate.redact (xmlDocument (writtenTags report))).all isXmlChar = true
  · rw [if_pos hall, and_iff_right hall, ← hunknown]
    constructor
    · rintro ⟨tags, htags, -, suite, hsuite, -, -, hcount⟩
      rw [← Option.some.inj htags, printedTags] at hsuite hcount
      rw [elements_testsuite] at hsuite
      rw [← List.singleton_inj.mp hsuite, hsuiteErrors, Function.comp_apply, herrors,
        length_elements_child _ _ _ (by decide) (by decide)] at hcount
      exact (natStr_injective (Option.some.inj hcount)).symm
    · intro hnone
      refine ⟨_, rfl, ?_, _, elements_testsuite _ _ report, ?_, ?_, ?_⟩
      · rw [printedTags, elements_testcase, List.map_map]
        rfl
      · rw [hsuiteTests, Function.comp_apply, htests, printedTags, elements_testcase, List.length_map]
      · rw [hsuiteFailures, Function.comp_apply, hfailures, printedTags,
          length_elements_child _ _ _ (by decide) (by decide), hfailed]
      · rw [hsuiteErrors, Function.comp_apply, herrors, printedTags,
          length_elements_child _ _ _ (by decide) (by decide), hnone]
  · rw [if_neg hall]
    refine iff_of_false ?_ fun hboth => hall hboth.1
    rintro ⟨tags, htags, -⟩
    cases htags

end DevRepro.Reports
