import DevRepro.Reports.Junit

/-!
# Reading a JUnit report

The references that are written are read as references, also behind the redaction
(`referencesOk_escape`, `referencesOk_redact`).  A tag whose markup is left alone is
redacted value by value (`redact_rawTag`) and read back (`readTag_rawTag`), and the
tags of a report are nested (`wellNested_junitTags`).
-/

namespace DevRepro.Reports

open DevRepro.Python DevRepro.Lib DevRepro.Privacy DevRepro.Snapshots
open DevRepro.Mcp (Finding FindingState Evidence)

/-! ## References -/

/-- The escapes of a text. -/
def cdataEscapes : Escapes CodePoint where
  mark := codePoint '&'
  table := [(codePoint '&', "amp;"), (codePoint '<', "lt;"), (codePoint '>', "gt;")]

theorem escapeAttrib_eq (s : Str) : escapeAttrib s = xmlReferences.escape s := by
  have hstaged : Staged xmlReferences.mark xmlReferences.table := by decide
  exact replaceEach_eq_escape hstaged s

theorem escapeCdata_eq (s : Str) : escapeCdata s = cdataEscapes.escape s := by
  have hstaged : Staged cdataEscapes.mark cdataEscapes.table := by decide
  exact replaceEach_eq_escape hstaged s

theorem xmlReferences_sound : xmlReferences.Sound := by
  constructor
  · decide
  · decide

/-- The tails of the references: no mark in them, and a semicolon behind a word. -/
theorem reference_tail {entry : CodePoint × Str} (h : entry ∈ xmlReferences.table) :
    xmlReferences.mark ∉ entry.2 ∧ ∃ body, entry.2 = body ++ lit ";" ∧ codePoint '/' ∉ body ∧
      codePoint '\\' ∉ body := by
  simp only [xmlReferences, List.mem_cons, List.not_mem_nil, or_false] at h
  rcases h with rfl | rfl | rfl | rfl | rfl | rfl | rfl
  · exact ⟨by decide, "amp", rfl, by decide, by decide⟩
  · exact ⟨by decide, "lt", rfl, by decide, by decide⟩
  · exact ⟨by decide, "gt", rfl, by decide, by decide⟩
  · exact ⟨by decide, "quot", rfl, by decide, by decide⟩
  · exact ⟨by decide, "#13", rfl, by decide, by decide⟩
  · exact ⟨by decide, "#10", rfl, by decide, by decide⟩
  · exact ⟨by decide, "#09", rfl, by decide, by decide⟩

theorem referencesOk_append {s : Str} (h : xmlReferences.mark ∉ s) (rest : Str) :
    referencesOk (s ++ rest) = referencesOk rest := by
  induction s with
  | nil => rfl
  | cons c s ih =>
    rw [List.mem_cons, not_or] at h
    have hc : (c != xmlReferences.mark) = true := bne_iff_ne.mpr (Ne.symm h.1)
    rw [List.cons_append, referencesOk, hc, Bool.true_or, Bool.true_and, ih h.2]

/-- A reference in front of a text. -/
theorem referencesOk_reference {entry : CodePoint × Str} (h : entry ∈ xmlReferences.table)
    (rest : Str) : referencesOk (xmlReferences.mark :: (entry.2 ++ rest)) = referencesOk rest := by
  rw [referencesOk, xmlReferences_sound.next?_eq h, Option.isSome_some, Bool.or_true, Bool.true_and,
    referencesOk_append (reference_tail h).1]

theorem referencesOk_escape {e : Escapes CodePoint} (h : Escapes.ReadBy e xmlReferences) (s : Str) :
    referencesOk (e.escape s) = true := by
  induction s with
  | nil => rfl
  | cons c s ih =>
    rw [Escapes.escape, List.flatMap_cons, Escapes.symbol]
    rw [Escapes.escape] at ih
    cases htail : e.tail? c with
    | some tail =>
      dsimp only
      rw [h.mark_eq, List.cons_append,
        referencesOk_reference (h.known _ (Escapes.mem_of_tail? htail)), ih]
    | none =>
      have hc : xmlReferences.mark ∉ [c] := by
        rw [List.mem_singleton]
        rintro rfl
        have hmark := h.mark
        rw [h.mark_eq, htail] at hmark
        exact absurd hmark Bool.false_ne_true
      dsimp only
      rw [referencesOk_append hc, ih]

/-! ## The redaction of values -/

variable {normcase : Str → Str} {gate : PrivacyGate normcase}

theorem PlainMachine.clear (h : PlainMachine gate) {sep : CodePoint} (haddress : NoAddress sep)
    (hmarkup : sep ∈ lit "<>&;\"") : gate.Clear sep where
  address := haddress
  variants := fun v hv hin => (h.variants v hv sep hin).1 hmarkup
  username := fun hin => (h.username sep hin).1 hmarkup

theorem PlainMachine.bracketless (h : PlainMachine gate) : PrivacyGate.Bracketless gate where
  variants := fun v hv =>
    ⟨fun hin => (h.variants v hv _ hin).1 (by decide), fun hin => (h.variants v hv _ hin).1 (by decide)⟩
  username := ⟨fun hin => (h.username _ hin).1 (by decide), fun hin => (h.username _ hin).1 (by decide)⟩

/-- An absolute path is in no text without a separator. -/
theorem foldl_redactVariant_eq {vs : List Str} (hvs : ∀ v ∈ vs, codePoint '/' ∈ v ∨ codePoint '\\' ∈ v)
    {s : Str} (hslash : codePoint '/' ∉ s) (hback : codePoint '\\' ∉ s) :
    vs.foldl redactVariant s = s := by
  induction vs with
  | nil => rfl
  | cons v vs ih =>
    rw [List.forall_mem_cons] at hvs
    have hstep : redactVariant s v = s := by
      unfold redactVariant
      split_ifs with hin
      · have hwithin := containsText_iff.mp hin.2
        rcases hvs.1 with hv | hv
        · exact absurd (hwithin.subset hv) hslash
        · exact absurd (hwithin.subset hv) hback
      · rfl
    rw [List.foldl_cons, hstep]
    exact ih hvs.2

theorem PlainMachine.redactHome_eq (h : PlainMachine gate) {s : Str} (hslash : codePoint '/' ∉ s)
    (hback : codePoint '\\' ∉ s) : gate.redactHome s = s :=
  foldl_redactVariant_eq h.absolute hslash hback

theorem impersonal_iff (h : PlainMachine gate) {s : Str} (hs : codePoint '<' ∉ s) :
    Impersonal gate s ↔ codePoint '<' ∉ gate.redact s := by
  rw [not_mem_redact_iff h.bracketless, and_iff_right hs]

/-- The references of a value stay references. -/
theorem referencesOk_redact (h : PlainMachine gate) (s : Str) (hs : referencesOk s = true)
    (hnone : codePoint '<' ∉ gate.redact s) : referencesOk (gate.redact s) = true := by
  have hamp : gate.Clear (codePoint '&') := h.clear ⟨by decide, by decide, by decide⟩ (by decide)
  have hsemi : gate.Clear (codePoint ';') := h.clear ⟨by decide, by decide, by decide⟩ (by decide)
  induction hlen : s.length using Nat.strongRecOn generalizing s with
  | ind n ih =>
    by_cases hin : codePoint '&' ∈ s
    · obtain ⟨a, rest, rfl, ha⟩ := List.eq_append_cons_of_mem hin
      rw [referencesOk_append ha, referencesOk, Bool.and_eq_true] at hs
      have hnext : (xmlReferences.next? rest).isSome = true := by
        have hfirst := hs.1
        rwa [show (codePoint '&' != xmlReferences.mark) = false from bne_self_eq_false _,
          Bool.false_or] at hfirst
      obtain ⟨entry, hfound⟩ := Option.isSome_iff_exists.mp hnext
      have hentry := List.mem_of_find?_eq_some hfound
      obtain ⟨b, rfl⟩ := List.isPrefixOf_iff_prefix.mp
        (List.find?_some (p := fun x : CodePoint × Str => x.2.isPrefixOf rest) hfound)
      obtain ⟨hmark, body, hbody, hslash, hback⟩ := reference_tail hentry
      have hsplit : entry.2 ++ b = body ++ codePoint ';' :: b := by
        rw [hbody, List.append_assoc]
        rfl
      rw [redact_separator hamp, hsplit, redact_separator hsemi] at hnone ⊢
      simp only [List.mem_append, List.mem_cons, not_or] at hnone
      have hword : gate.redact body = body := by
        rw [redact_eq_home hnone.2.2.1, h.redactHome_eq hslash hback]
      have ha' : xmlReferences.mark ∉ gate.redact a := by
        rw [redact_eq_home hnone.1]
        exact not_mem_redactHome (by decide) ha
      have hb : referencesOk b = true := by
        have hrest := hs.2
        rwa [referencesOk_append hmark] at hrest
      have hshorter : b.length < n := by
        simp only [List.length_append, List.length_cons] at hlen
        omega
      have hread := ih b.length hshorter b hb hnone.2.2.2.2 rfl
      have hreference : body ++ codePoint ';' :: gate.redact b = entry.2 ++ gate.redact b := by
        rw [hbody, List.append_assoc]
        rfl
      rw [referencesOk_append ha', hword, hreference]
      exact (referencesOk_reference hentry _).trans hread
    · have hkept : xmlReferences.mark ∉ gate.redact s := by
        rw [redact_eq_home hnone]
        exact not_mem_redactHome (by decide) hin
      have hall := referencesOk_append hkept []
      rw [List.append_nil] at hall
      rw [hall]
      rfl

/-! ## The redaction of tags -/

/-- A tag with its values changed. -/
def XmlTag.mapValues (f : Str → Str) : XmlTag → XmlTag
  | .declaration => .declaration
  | .start name attrs => .start name (attrs.map fun a => (a.1, f a.2))
  | .empty name attrs => .empty name (attrs.map fun a => (a.1, f a.2))
  | .close name => .close name

theorem redact_attrs (h : PlainMachine gate) {before behind : Str} {attrs : List (Str × Str)}
    (hpieces : ∀ piece ∈ fixedPieces before attrs behind, gate.redact piece = piece) :
    gate.redact (before ++ (rawAttrs attrs ++ behind)) =
      before ++ (rawAttrs (attrs.map fun a => (a.1, gate.redact a.2)) ++ behind) := by
  have hquote : gate.Clear (codePoint '"') := h.clear ⟨by decide, by decide, by decide⟩ (by decide)
  induction attrs generalizing before with
  | nil => exact hpieces _ (List.mem_singleton.mpr rfl)
  | cons a attrs ih =>
    rw [fixedPieces, List.forall_mem_cons] at hpieces
    have hsplit : ∀ (key value rest : Str),
        before ++ (lit " " ++ (key ++ (lit "=\"" ++ (value ++ lit "\""))) ++ rest) = (before ++ (lit " " ++ (key ++ lit "="))) ++ codePoint '"' ::
          (value ++ codePoint '"' :: ([] ++ rest)) := by
      intro key value rest
      have hequals : lit "=\"" = lit "=" ++ [codePoint '"'] := rfl
      have hend : lit "\"" = [codePoint '"'] := rfl
      rw [hequals, hend]
      simp
    rw [rawAttrs, List.flatMap_cons, ← rawAttrs, List.append_assoc _ (rawAttrs attrs) behind, hsplit,
      redact_separator hquote, redact_separator hquote, ih hpieces.2, hpieces.1, ← hsplit]
    simp [rawAttrs]

/-- A tag whose markup is left alone is redacted value by value. -/
theorem redact_rawTag (h : PlainMachine gate) {tag : XmlTag}
    (hpieces : ∀ piece ∈ tagPieces tag, gate.redact piece = piece) :
    gate.redact (rawTag tag) = rawTag (tag.mapValues gate.redact) := by
  cases tag with
  | declaration => exact hpieces _ (List.mem_singleton.mpr rfl)
  | start name attrs =>
    have htag := redact_attrs h hpieces
    rw [List.append_nil, List.append_nil] at htag
    exact htag
  | empty name attrs => exact redact_attrs h hpieces
  | close name => exact hpieces _ (List.mem_singleton.mpr rfl)

/-- The tags with other escapes are the tags with their values and texts changed. -/
theorem mapValues_junitTags (g val txt : Str → Str) (hnil : g [] = []) (hline : g (lit "\n") = lit "\n")
    (report : ScanReport) :
    (junitTags val txt report).map (fun item => (item.1.mapValues g, g item.2)) =
      junitTags (g ∘ val) (g ∘ txt) report := by
  have hcase : ∀ f, (caseTags val txt f).map (fun item => (item.1.mapValues g, g item.2)) =
      caseTags (g ∘ val) (g ∘ txt) f := by
    intro f
    rw [caseTags, caseTags]
    cases childName f.state with
    | none => simp [caseAttrs, XmlTag.mapValues, hnil]
    | some child =>
      by_cases hempty : firstExcerpt f = []
      · simp [caseAttrs, childTags, hempty, XmlTag.mapValues, hnil]
      · simp [caseAttrs, childTags, hempty, XmlTag.mapValues, hnil]
  have hcases : (report.findings.flatMap (caseTags val txt)).map
      (fun item => (item.1.mapValues g, g item.2)) =
      report.findings.flatMap (caseTags (g ∘ val) (g ∘ txt)) := by
    rw [List.map_flatMap]
    congr 1
    funext f
    exact hcase f
  rw [junitTags, junitTags]
  split_ifs
  · simp [suiteAttrs, XmlTag.mapValues, hnil, hline]
  · simp only [List.map_append, hcases]
    simp [suiteAttrs, XmlTag.mapValues, hnil, hline]

/-! ## The tags -/

/-- A tag whose names are names, each used once. -/
def WellNamed : XmlTag → Prop
  | .declaration => True
  | .start name attrs =>
    isName name = true ∧ (∀ a ∈ attrs, isName a.1 = true) ∧ (attrs.map Prod.fst).Nodup
  | .empty name attrs =>
    isName name = true ∧ (∀ a ∈ attrs, isName a.1 = true) ∧ (attrs.map Prod.fst).Nodup
  | .close name => isName name = true

theorem readTag_rawTag {tag : XmlTag} (h : WellNamed tag)
    (hvalues : ∀ value ∈ tagValues tag, PlainValue value) : readTag (rawTag tag) = some tag := by
  cases tag with
  | declaration => exact if_pos rfl
  | start name attrs =>
    have hread := @readTag_element name attrs
      ⟨h.1, h.2.1, h.2.2, fun a ha => hvalues _ (List.mem_map_of_mem ha)⟩ false
    simp only [Bool.false_eq_true, if_false, List.append_nil] at hread
    exact hread
  | empty name attrs =>
    exact @readTag_element name attrs
      ⟨h.1, h.2.1, h.2.2, fun a ha => hvalues _ (List.mem_map_of_mem ha)⟩ true
  | close name => exact readTag_close h

/-- A character that is in no name, in no fixed part and in no value is not in the tag. -/
theorem not_mem_rawTag {tag : XmlTag} {c : CodePoint} (h : WellNamed tag)
    (hname : isNameChar c = false) (hfixed : c ∉ lit " =\"/") (hdeclaration : c ∉ xmlDeclaration)
    (hvalues : ∀ value ∈ tagValues tag, c ∉ value) : c ∉ rawTag tag := by
  have hattrs : ∀ attrs : List (Str × Str), (∀ a ∈ attrs, isName a.1 = true) →
      (∀ value ∈ attrs.map Prod.snd, c ∉ value) → c ∉ rawAttrs attrs := by
    intro attrs hkeys hattrs hin
    obtain ⟨a, ha, hin⟩ := List.mem_flatMap.mp hin
    simp only [List.mem_append] at hin
    rcases hin with hin | hin | hin | hin | hin
    · exact hfixed ((show lit " " ⊆ lit " =\"/" by decide) hin)
    · exact isName_no hname (hkeys a ha) hin
    · exact hfixed ((show lit "=\"" ⊆ lit " =\"/" by decide) hin)
    · exact hattrs _ (List.mem_map_of_mem ha) hin
    · exact hfixed ((show lit "\"" ⊆ lit " =\"/" by decide) hin)
  cases tag with
  | declaration => exact hdeclaration
  | start name attrs =>
    rw [rawTag, List.mem_append, not_or]
    exact ⟨isName_no hname h.1, hattrs attrs h.2.1 hvalues⟩
  | empty name attrs =>
    rw [rawTag, List.mem_append, List.mem_append, not_or, not_or]
    exact ⟨isName_no hname h.1, hattrs attrs h.2.1 hvalues, fun hin =>
      hfixed ((show lit " /" ⊆ lit " =\"/" by decide) hin)⟩
  | close name =>
    rw [rawTag, List.mem_append, not_or]
    exact ⟨fun hin => hfixed ((show lit "/" ⊆ lit " =\"/" by decide) hin), isName_no hname h⟩

/-- The names of the elements of a report. -/
def reportNames : List Str :=
  [lit "testsuite", lit "testcase", lit "failure", lit "skipped", lit "error"]

theorem childName_mem {state : FindingState} {child : Str} (h : childName state = some child) :
    child ∈ reportNames := by
  cases state
  all_goals first
    | (rw [← Option.some.inj h]; decide)
    | exact absurd h (by simp [childName])

theorem childName_isName {state : FindingState} {child : Str} (h : childName state = some child) :
    isName child = true := by
  have hall : reportNames.all isName = true := by decide
  exact List.all_eq_true.mp hall child (childName_mem h)

section Items

variable {val txt : Str → Str} {report : ScanReport} {P : XmlTag × Str → Prop}

/-- What holds of the tags that an element is written with. -/
structure ForElement (P : XmlTag × Str → Prop) (name : Str) (attrs : List (Str × Str)) (text : Str) :
    Prop where
  start : P (.start name attrs, text)
  empty : P (.empty name attrs, [])
  close : P (.close name, [])

/-- What holds of the tags of the suite, of the test cases and of the elements in them holds of all
the tags of a report. -/
theorem forall_junitTags (hdeclaration : P (.declaration, lit "\n"))
    (hsuite : ForElement P "testsuite" (suiteAttrs val report) [])
    (hcase : ∀ f, ForElement P "testcase" (caseAttrs val f) [])
    (hchild : ∀ f child, childName f.state = some child →
      ForElement P child [(lit "message", val f.summary)] (txt (firstExcerpt f))) :
    ∀ item ∈ junitTags val txt report, P item := by
  have hinside : ∀ f child, childName f.state = some child → ∀ item ∈ childTags val txt f child,
      P item := by
    intro f child hstate
    rw [childTags]
    split_ifs
    · exact List.forall_mem_singleton.mpr (hchild f child hstate).empty
    · rw [List.forall_mem_cons, List.forall_mem_singleton]
      exact ⟨(hchild f child hstate).start, (hchild f child hstate).close⟩
  have hcases : ∀ f, ∀ item ∈ caseTags val txt f, P item := by
    intro f
    rw [caseTags]
    cases hstate : childName f.state with
    | none => exact List.forall_mem_singleton.mpr (hcase f).empty
    | some child =>
      dsimp only
      rw [List.forall_mem_append, List.forall_mem_append, List.forall_mem_singleton,
        List.forall_mem_singleton]
      exact ⟨⟨(hcase f).start, hinside f child hstate⟩, (hcase f).close⟩
  rw [junitTags, List.forall_mem_append, List.forall_mem_singleton]
  refine ⟨hdeclaration, ?_⟩
  split_ifs
  · exact List.forall_mem_singleton.mpr hsuite.empty
  · rw [List.forall_mem_append, List.forall_mem_append, List.forall_mem_singleton,
      List.forall_mem_singleton]
    refine ⟨⟨hsuite.start, fun item hitem => ?_⟩, hsuite.close⟩
    obtain ⟨f, -, hitem⟩ := List.mem_flatMap.mp hitem
    exact hcases f item hitem

end Items

theorem junitTags_named (val txt : Str → Str) (report : ScanReport) :
    ∀ item ∈ junitTags val txt report, WellNamed item.1 := by
  have hnames : ∀ a ∈ suiteAttrs val report, isName a.1 = true := by
    simp only [suiteAttrs, List.forall_mem_cons, List.not_mem_nil, false_imp_iff, implies_true, and_true]
    decide
  have hcaseNames : ∀ f, ∀ a ∈ caseAttrs val f, isName a.1 = true := by
    intro f
    simp only [caseAttrs, List.forall_mem_cons, List.not_mem_nil, false_imp_iff, implies_true, and_true]
    decide
  have hsuite : WellNamed (.start "testsuite" (suiteAttrs val report)) :=
    ⟨by decide, hnames, by simp only [suiteAttrs, List.map_cons, List.map_nil]; decide⟩
  have htestcase : ∀ f, WellNamed (.start "testcase" (caseAttrs val f)) := fun f =>
    ⟨by decide, hcaseNames f, by simp only [caseAttrs, List.map_cons, List.map_nil]; decide⟩
  refine forall_junitTags trivial ⟨hsuite, hsuite, hsuite.1⟩
    (fun f => ⟨htestcase f, htestcase f, (htestcase f).1⟩) fun f child hstate => ?_
  have hname := childName_isName hstate
  have hmessage : WellNamed (.start child [(lit "message", val f.summary)]) :=
    ⟨hname, List.forall_mem_singleton.mpr (show isName (lit "message") = true by decide),
      List.nodup_singleton _⟩
  exact ⟨hmessage, hmessage, hname⟩

/-! ## Nesting -/

/-- A test case is nested in itself. -/
theorem content_case (val txt : Str → Str) (f : Finding) (top : Str) (stack : List Str)
    (rest : List XmlTag) :
    content (top :: stack) ((caseTags val txt f).map Prod.fst ++ rest) = content (top :: stack) rest := by
  rw [caseTags]
  cases childName f.state with
  | none => rfl
  | some child =>
    by_cases hempty : firstExcerpt f = []
    · simp [childTags, hempty, content]
    · simp [childTags, hempty, content]

theorem wellNested_junitTags (val txt : Str → Str) (report : ScanReport) :
    wellNested ((junitTags val txt report).map Prod.fst) = true := by
  have hcases : ∀ (findings : List Finding) (rest : List XmlTag),
      content [lit "testsuite"] ((findings.flatMap (caseTags val txt)).map Prod.fst ++ rest) =
        content [lit "testsuite"] rest := by
    intro findings rest
    induction findings with
    | nil => rfl
    | cons f findings ih =>
      rw [List.flatMap_cons, List.map_append, List.append_assoc, content_case, ih]
  rw [junitTags]
  split_ifs
  · rfl
  · rw [List.map_append, List.map_append, List.map_append]
    show content [lit "testsuite"] ((report.findings.flatMap (caseTags val txt)).map Prod.fst ++
      [XmlTag.close (lit "testsuite")]) = true
    rw [hcases]
    simp [content]

end DevRepro.Reports
