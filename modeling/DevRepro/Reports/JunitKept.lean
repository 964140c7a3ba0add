import DevRepro.Reports.JunitBroken

/-!
# JUnit reports with their markup left alone

A report that is read had its markup left alone (`kept_of_read`), so that
`render_junit` writes what a reader relies on exactly when the redaction finds
nothing in the markup, the characters are XML characters and no finding is unknown
(`junit_ok_iff`).
-/

namespace DevRepro.Reports

open DevRepro.Python DevRepro.Lib DevRepro.Privacy DevRepro.Snapshots
open DevRepro.Mcp (Finding FindingState Evidence)

variable {normcase : Str → Str} {gate : PrivacyGate normcase}

/-! ## The redaction of a tag -/

/-- No separator of paths. -/
def Slashless (s : Str) : Prop := codePoint '/' ∉ s ∧ codePoint '\\' ∉ s

theorem slashless_append {s t : Str} : Slashless (s ++ t) ↔ Slashless s ∧ Slashless t := by
  simp only [Slashless, List.mem_append, not_or]
  constructor
  · rintro ⟨⟨hs, ht⟩, hs', ht'⟩
    exact ⟨⟨hs, hs'⟩, ht, ht'⟩
  · rintro ⟨⟨hs, hs'⟩, ht, ht'⟩
    exact ⟨⟨hs, ht⟩, hs', ht'⟩

theorem slashless_name {name : Str} (h : isName name = true) : Slashless name :=
  ⟨isName_no (by decide) h, isName_no (by decide) h⟩

theorem PlainMachine.redact_slashless (h : PlainMachine gate) {s : Str} (hs : Slashless s)
    (hnone : codePoint '<' ∉ gate.redact s) : gate.redact s = s := by
  rw [redact_eq_home hnone, h.redactHome_eq hs.1 hs.2]

/-- What the redaction does to the attributes of a tag, when no placeholder comes into it. -/
structure AttrsKept (gate : PrivacyGate normcase) (before : Str) (attrs : List (Str × Str))
    (behind : Str) : Prop where
  out : gate.redact (before ++ (rawAttrs attrs ++ behind)) =
    before ++ (rawAttrs (attrs.map fun a => (a.1, gate.redact a.2)) ++ gate.redact behind)
  last : codePoint '<' ∉ gate.redact behind
  values : ∀ a ∈ attrs, codePoint '<' ∉ gate.redact a.2
  pieces : ∀ piece ∈ fixedPieces before attrs behind, piece = behind ∨ gate.redact piece = piece

theorem attrsKept (h : PlainMachine gate) {before behind : Str} {attrs : List (Str × Str)}
    (hbefore : Slashless before) (hkeys : ∀ a ∈ attrs, isName a.1 = true)
    (hne : before = [] ∨ attrs ≠ [])
    (hnone : codePoint '<' ∉ gate.redact (before ++ (rawAttrs attrs ++ behind))) :
    AttrsKept gate before attrs behind := by
  have hquote : gate.Clear (codePoint '"') := h.clear ⟨by decide, by decide, by decide⟩ (by decide)
  induction attrs generalizing before with
  | nil =>
    rcases hne with rfl | hne
    · refine ⟨rfl, hnone, fun _ ha => absurd ha List.not_mem_nil, fun piece hpiece => ?_⟩
      exact Or.inl (List.mem_singleton.mp hpiece)
    · exact absurd rfl hne
  | cons a attrs ih =>
    rw [List.forall_mem_cons] at hkeys
    have hfirst : Slashless (before ++ (lit " " ++ (a.1 ++ lit "="))) := by
      rw [slashless_append, slashless_append, slashless_append]
      exact ⟨hbefore, ⟨by decide, by decide⟩, slashless_name hkeys.1, by decide, by decide⟩
    have hsplit : before ++ (rawAttrs (a :: attrs) ++ behind) =
        (before ++ (lit " " ++ (a.1 ++ lit "="))) ++ codePoint '"' ::
          (a.2 ++ codePoint '"' :: ([] ++ (rawAttrs attrs ++ behind))) := by
      rw [rawAttrs_cons]
      simp
    rw [hsplit, redact_separator hquote, redact_separator hquote] at hnone
    simp only [List.mem_append, List.mem_cons, not_or] at hnone
    obtain ⟨hlead, -, hvalue, -, hrest⟩ := hnone
    have hkept := h.redact_slashless hfirst hlead
    have htail := @ih [] ⟨List.not_mem_nil, List.not_mem_nil⟩ hkeys.2 (Or.inl rfl) hrest
    refine ⟨?_, htail.last, List.forall_mem_cons.mpr ⟨hvalue, htail.values⟩, ?_⟩
    · rw [hsplit, redact_separator hquote, redact_separator hquote, hkept, htail.out, List.map_cons,
        rawAttrs_cons]
      simp
    · rw [fixedPieces]
      exact List.forall_mem_cons.mpr ⟨Or.inr hkept, htail.pieces⟩

/-- The home path in a tag that has one separator leaves a text that is no tag. -/
theorem home_kept (h : PlainMachine gate) {s : Str} (hback : codePoint '\\' ∉ s)
    (hslash : s.count (codePoint '/') = 1) (hnone : codePoint '<' ∉ gate.redact s)
    (hread : codePoint '~' ∉ gate.redact s) : gate.redact s = s := by
  rw [redact_eq_home hnone] at hread ⊢
  rcases one_slash h hback hslash with hsame | htilde
  · exact hsame
  · exact absurd htilde hread

/-! ## The tags of a report -/

/-- The tags of a report: each element has attributes. -/
def ReportTag : XmlTag → Prop
  | .declaration => True
  | .start _ attrs => attrs ≠ []
  | .empty _ attrs => attrs ≠ []
  | .close name => name ∈ reportNames

theorem reportTag_of_mem (val txt : Str → Str) (report : ScanReport) :
    ∀ item ∈ junitTags val txt report, ReportTag item.1 := by
  have hsuite : lit "testsuite" ∈ reportNames := by decide
  have hcase : lit "testcase" ∈ reportNames := by decide
  exact forall_junitTags trivial ⟨List.cons_ne_nil _ _, List.cons_ne_nil _ _, hsuite⟩
    (fun _ => ⟨List.cons_ne_nil _ _, List.cons_ne_nil _ _, hcase⟩)
    fun _ _ hstate => ⟨List.cons_ne_nil _ _, List.cons_ne_nil _ _, childName_mem hstate⟩

theorem quote_of_attrs {attrs : List (Str × Str)} (h : attrs ≠ []) (name behind : Str) :
    codePoint '"' ∈ name ++ (rawAttrs attrs ++ behind) := by
  obtain ⟨a, attrs, rfl⟩ := List.exists_cons_of_ne_nil h
  rw [rawAttrs_cons]
  exact List.mem_append_right _ (List.mem_append_right _ List.mem_cons_self)

/-! ## What a reader shows -/

/-- The tags that a reader finds in a printed report. -/
structure ReadAs (gate : PrivacyGate normcase) (report : ScanReport) (tags : List XmlTag)
    (fine : Markup CodePoint) : Prop where
  refined : Refined gate (writtenTags report) fine
  read : (fine.map Prod.fst).mapM readTag = some tags
  nested : wellNested tags = true
  tags : ∀ item ∈ writtenTags report, codePoint '<' ∉ gate.redact (rawTag item.1)

theorem readAs_of_read (h : PlainMachine gate) {report : ScanReport} {tags : List XmlTag}
    (hread : readXml (gate.redact (xmlDocument (writtenTags report))) = some tags) :
    ∃ fine, ReadAs gate report tags fine := by
  obtain ⟨hclosed, htags, hnested⟩ := readXml_some hread
  have hkept := fun item (hitem : item ∈ writtenTags report) => tag_kept h hclosed hitem
  obtain ⟨fine, hfine⟩ := @exists_refined _ gate (writtenTags report)
    (fun item hitem => ⟨bare_rawTag hitem, hkept item hitem⟩)
    (fun item hitem => ⟨(written_text report hitem).lt, (written_text report hitem).gt⟩)
  have hfound : readMarkup (codePoint '<') (codePoint '>') (document fine) = fine :=
    readMarkup_printMarkup (by decide) hfine.plain
  rw [printed_eq h, hfine.same, hfound] at htags
  exact ⟨fine, hfine, htags, hnested, hkept⟩

/-- Each tag that was written is read. -/
theorem ReadAs.tag {report : ScanReport} {tags : List XmlTag} {fine : Markup CodePoint}
    (hread : ReadAs gate report tags fine) {item : XmlTag × Str} (hitem : item ∈ writtenTags report) :
    ∃ tag, readTag (gate.redact (rawTag item.1)) = some tag := by
  obtain ⟨tag, -, htag⟩ := (mem_of_mapM_readTag hread.read).1 _ (hread.refined.old item hitem)
  exact ⟨tag, htag⟩

/-! ## Texts -/

theorem readTag_placeholder {tag : Str} (h : isPlaceholderTag tag) :
    readTag tag = some (.start tag []) := by
  have hnone : ∀ c ∈ ([] : Str).head?, isXmlSpace c = true := fun _ hc =>
    absurd hc (Option.not_mem_none _)
  rcases h with rfl | rfl
  · exact @readTag_split (lit "user") [] (by decide) hnone
  · exact @readTag_split (lit "email-redacted") [] (by decide) hnone

/-- No tag of a report closes a placeholder. -/
theorem not_closing (h : PlainMachine gate) {report : ScanReport} {item : XmlTag × Str}
    (hitem : item ∈ writtenTags report) (hnone : codePoint '<' ∉ gate.redact (rawTag item.1)) {tag : Str}
    (htag : isPlaceholderTag tag) : lit "/" ++ tag ≠ gate.redact (rawTag item.1) := by
  have hquote : gate.Clear (codePoint '"') := h.clear ⟨by decide, by decide, by decide⟩ (by decide)
  have hplain : codePoint '"' ∉ lit "/" ++ tag ∧ codePoint '~' ∉ lit "/" ++ tag ∧
      lit "/" ++ tag ≠ xmlDeclaration ∧ tag ∉ reportNames := by
    rcases htag with rfl | rfl
    all_goals decide
  have hattrs : ∀ (name : Str) (attrs : List (Str × Str)) (behind : Str), attrs ≠ [] →
      lit "/" ++ tag ≠ gate.redact (name ++ (rawAttrs attrs ++ behind)) := by
    intro name attrs behind hne heq
    have hin := mem_redact hquote (quote_of_attrs hne name behind)
    rw [← heq] at hin
    exact hplain.1 hin
  have hreport := reportTag_of_mem _ _ report item hitem
  have hnamed := junitTags_named _ _ report item hitem
  intro heq
  cases hkind : item.1 with
  | declaration =>
    rw [hkind] at heq hnone
    have hsame : gate.redact (rawTag .declaration) = xmlDeclaration :=
      h.redact_slashless ⟨by decide, by decide⟩ hnone
    exact hplain.2.2.1 (heq.trans hsame)
  | start name attrs =>
    rw [hkind] at heq hreport
    refine hattrs name attrs [] hreport ?_
    rw [List.append_nil]
    exact heq
  | empty name attrs =>
    rw [hkind] at heq hreport
    exact hattrs name attrs (lit " /") hreport heq
  | close name =>
    rw [hkind] at heq hnone hreport hnamed
    have hname := slashless_name hnamed
    have hsame : gate.redact (rawTag (.close name)) = rawTag (.close name) := by
      refine home_kept h ?_ ?_ hnone (heq ▸ hplain.2.1)
      · rw [rawTag, List.mem_append, not_or]
        exact ⟨by decide, hname.2⟩
      · rw [rawTag, List.count_append, List.count_eq_zero.mpr hname.1]
        rfl
    have htag' : tag = name := List.append_cancel_left (heq.trans hsame)
    exact hplain.2.2.2 (htag' ▸ hreport)

/-- A placeholder in a text opens an element that nothing closes. -/
theorem text_kept (h : PlainMachine gate) {report : ScanReport} {tags : List XmlTag}
    {fine : Markup CodePoint} (hread : ReadAs gate report tags fine) {item : XmlTag × Str}
    (hitem : item ∈ writtenTags report) : codePoint '<' ∉ gate.redact item.2 := by
  intro hin
  obtain ⟨found, hfound, hplaceholder⟩ := hread.refined.shown item hitem hin
  obtain ⟨hall, hfrom⟩ := mem_of_mapM_readTag hread.read
  obtain ⟨tag, htag, hopen⟩ := hall found.1 (List.mem_map_of_mem hfound)
  rw [readTag_placeholder hplaceholder] at hopen
  cases hopen
  obtain ⟨text, htext, hclose⟩ := hfrom _ (close_of_start hread.nested ⟨[], htag⟩)
  obtain ⟨other, hother, rfl⟩ := List.mem_map.mp htext
  have heq := readTag_close_eq hclose
  rcases hread.refined.new other hother with hnew | ⟨written, hwritten, hnew⟩
  · have hslash : codePoint '/' ∉ other.1 := by
      rcases hnew with hnew | hnew
      all_goals
        rw [hnew]
        decide
    rw [heq] at hslash
    exact hslash List.mem_cons_self
  · exact not_closing h hwritten (hread.tags written hwritten) hplaceholder (heq.symm.trans hnew)

/-! ## Tags -/

/-- The end of an empty element that is read was left alone. -/
theorem end_kept (h : PlainMachine gate) {name : Str} {attrs : List (Str × Str)} {found : XmlTag}
    (hnamed : WellNamed (.empty name attrs)) (hattrs : attrs ≠ [])
    (hvalues : ∀ value ∈ attrs.map Prod.snd, codePoint '"' ∉ value)
    (hkept : AttrsKept gate name attrs " /")
    (hread : readTag (gate.redact (rawTag (.empty name attrs))) = some found) :
    gate.redact (lit " /") = lit " /" := by
  by_contra hbroken
  have hquote : ∀ {s : Str}, codePoint '<' ∉ gate.redact s → codePoint '"' ∉ s →
      codePoint '"' ∉ gate.redact s := by
    intro s hnone hs
    rw [redact_eq_home hnone]
    exact not_mem_redactHome (by decide) hs
  have hnil : gate.redact (lit " /") ≠ [] := by
    intro hnil
    refine hbroken (home_kept h (by decide) (by decide) hkept.last ?_)
    rw [hnil]
    exact List.not_mem_nil
  have hkeys : ∀ a ∈ attrs.map (fun a => (a.1, gate.redact a.2)), isName a.1 = true :=
    List.forall_mem_map.mpr hnamed.2.1
  have hplain : ∀ a ∈ attrs.map (fun a => (a.1, gate.redact a.2)), codePoint '"' ∉ a.2 :=
    List.forall_mem_map.mpr fun a ha => hquote (hkept.values a ha) (hvalues _ (List.mem_map_of_mem ha))
  have hne : attrs.map (fun a => (a.1, gate.redact a.2)) ≠ [] := fun hmap =>
    hattrs (List.map_eq_nil_iff.mp hmap)
  have hbad := readTag_bad hnamed.1 hne hkeys hplain (hquote hkept.last (by decide)) hnil hbroken
  rw [rawTag, hkept.out, hbad] at hread
  cases hread

/-- The markup of a tag that is read was left alone. -/
theorem tag_pieces_kept (h : PlainMachine gate) {tag : XmlTag} (hnamed : WellNamed tag)
    (hreport : ReportTag tag) (hvalues : ∀ value ∈ tagValues tag, codePoint '"' ∉ value)
    (hnone : codePoint '<' ∉ gate.redact (rawTag tag))
    (hread : ∃ found, readTag (gate.redact (rawTag tag)) = some found) :
    (∀ piece ∈ tagPieces tag, gate.redact piece = piece) ∧
      ∀ value ∈ tagValues tag, codePoint '<' ∉ gate.redact value := by
  obtain ⟨found, hread⟩ := hread
  cases tag with
  | declaration =>
    refine ⟨fun piece hpiece => ?_, fun _ hvalue => absurd hvalue List.not_mem_nil⟩
    rw [List.mem_singleton.mp hpiece]
    exact h.redact_slashless ⟨by decide, by decide⟩ hnone
  | start name attrs =>
    have hnone' : codePoint '<' ∉ gate.redact (name ++ (rawAttrs attrs ++ [])) := by
      rwa [List.append_nil]
    have hkept := attrsKept h (slashless_name hnamed.1) hnamed.2.1 (Or.inr hreport) hnone'
    refine ⟨fun piece hpiece => ?_, List.forall_mem_map.mpr hkept.values⟩
    rcases hkept.pieces piece hpiece with rfl | hsame
    · exact redact_nil
    · exact hsame
  | empty name attrs =>
    have hkept := attrsKept h (slashless_name hnamed.1) hnamed.2.1 (Or.inr hreport) hnone
    have hlast := end_kept h hnamed hreport hvalues hkept hread
    refine ⟨fun piece hpiece => ?_, List.forall_mem_map.mpr hkept.values⟩
    rcases hkept.pieces piece hpiece with rfl | hsame
    · exact hlast
    · exact hsame
  | close name =>
    have hname := slashless_name hnamed
    have hquote : codePoint '"' ∉ gate.redact (rawTag (.close name)) := by
      rw [redact_eq_home hnone]
      refine not_mem_redactHome (by decide) ?_
      rw [rawTag, List.mem_append, not_or]
      exact ⟨by decide, isName_no (by decide) hnamed⟩
    refine ⟨fun piece hpiece => ?_, fun _ hvalue => absurd hvalue List.not_mem_nil⟩
    rw [List.mem_singleton.mp hpiece]
    refine home_kept h ?_ ?_ hnone (readTag_no_tilde hread hquote)
    · rw [List.mem_append, not_or]
      exact ⟨by decide, hname.2⟩
    · rw [List.count_append, List.count_eq_zero.mpr hname.1]
      rfl

/-- A report that is read had its markup left alone. -/
theorem kept_of_read (h : PlainMachine gate) {report : ScanReport} {tags : List XmlTag}
    (hread : readXml (gate.redact (xmlDocument (writtenTags report))) = some tags) :
    MarkupKept gate (writtenTags report) := by
  obtain ⟨fine, hread⟩ := readAs_of_read h hread
  have htag : ∀ item ∈ writtenTags report, (∀ piece ∈ tagPieces item.1, gate.redact piece = piece) ∧
      ∀ value ∈ tagValues item.1, codePoint '<' ∉ gate.redact value := by
    intro item hitem
    refine tag_pieces_kept h (junitTags_named _ _ report item hitem) (reportTag_of_mem _ _ report item hitem)
      ?_ (hread.tags item hitem) (hread.tag hitem)
    intro value hvalue
    obtain ⟨s, rfl⟩ := junit_values _ _ report item hitem value hvalue
    exact (plain_escapeAttrib s).2
  refine ⟨fun item hitem => (htag item hitem).1, fun item hitem value hvalue => ?_, fun item hitem => ?_⟩
  · refine (impersonal_iff h ?_).mpr ((htag item hitem).2 value hvalue)
    obtain ⟨s, rfl⟩ := junit_values _ _ report item hitem value hvalue
    exact (plain_escapeAttrib s).1.lt
  · exact (impersonal_iff h (written_text report hitem).lt).mpr (text_kept h hread hitem)

/-! ## Reports -/

/-- A report is what a reader relies on exactly when its markup is left alone, its characters are
legal and no finding is unknown. -/
theorem junitOk_iff (h : PlainMachine gate) (report : ScanReport) :
    JunitOk gate report (gate.redact (xmlDocument (writtenTags report))) ↔
      MarkupKept gate (writtenTags report) ∧ LegalChars (writtenTags report) ∧
        ∀ f ∈ report.findings, f.state ≠ .unknown := by
  constructor
  · intro hok
    obtain ⟨tags, hread, -⟩ := id hok
    have hkept := kept_of_read h hread
    exact ⟨hkept, (junitOk_iff_of_kept h hkept).mp hok⟩
  · rintro ⟨hkept, hrest⟩
    exact (junitOk_iff_of_kept h hkept).mpr hrest

/-- `render_junit` returns the redacted document, when each finding that it quotes has evidence and
no secret is found. -/
theorem renderJunit_eq_ok {assertNoSecrets : Str → Except Exc Unit} {report : ScanReport} {doc : Str} :
    renderJunit gate assertNoSecrets report = .ok doc ↔
      doc = gate.redact (xmlDocument (writtenTags report)) ∧
        (∀ f ∈ report.findings, (childName f.state).isSome = true → f.evidence ≠ []) ∧
        assertNoSecrets doc = .ok () := by
  have hquoted : (report.findings.any fun f => (childName f.state).isSome && f.evidence.isEmpty) = false ↔
      ∀ f ∈ report.findings, (childName f.state).isSome = true → f.evidence ≠ [] := by
    rw [List.any_eq_false]
    refine forall₂_congr fun f _ => ?_
    rw [Bool.and_eq_true, not_and, List.isEmpty_iff]
  rw [renderJunit, ← hquoted]
  cases report.findings.any fun f => (childName f.state).isSome && f.evidence.isEmpty with
  | true =>
    refine iff_of_false (fun hdoc => ?_) fun hall => Bool.noConfusion hall.2.1
    obtain ⟨_, hraise, -⟩ := bind_eq_ok.mp hdoc
    cases hraise
  | false =>
    constructor
    · intro hdoc
      obtain ⟨_, hsafe, hdoc⟩ := bind_eq_ok.mp hdoc
      have heq : doc = gate.redact (xmlDocument (writtenTags report)) := (Except.ok.inj hdoc).symm
      exact ⟨heq, rfl, heq ▸ hsafe⟩
    · rintro ⟨rfl, -, hsafe⟩
      exact bind_eq_ok.mpr ⟨(), hsafe, rfl⟩

/-- `render_junit` returns what a reader relies on exactly when each finding that it quotes has
evidence, no secret is found, the markup is left alone, the characters are legal and no finding is
unknown. -/
theorem junit_ok_iff (h : PlainMachine gate) (assertNoSecrets : Str → Except Exc Unit)
    (report : ScanReport) :
    (∃ doc, renderJunit gate assertNoSecrets report = .ok doc ∧ JunitOk gate report doc) ↔
      (∀ f ∈ report.findings, (childName f.state).isSome = true → f.evidence ≠ []) ∧
        assertNoSecrets (gate.redact (xmlDocument (writtenTags report))) = .ok () ∧
        MarkupKept gate (writtenTags report) ∧ LegalChars (writtenTags report) ∧
          ∀ f ∈ report.findings, f.state ≠ .unknown := by
  constructor
  · rintro ⟨doc, hdoc, hok⟩
    obtain ⟨rfl, hevidence, hsafe⟩ := renderJunit_eq_ok.mp hdoc
    exact ⟨hevidence, hsafe, (junitOk_iff h report).mp hok⟩
  · rintro ⟨hevidence, hsafe, hrest⟩
    exact ⟨_, renderJunit_eq_ok.mpr ⟨rfl, hevidence, hsafe⟩, (junitOk_iff h report).mpr hrest⟩

/-! ## Examples -/

namespace Sample

theorem bob_plain : PlainMachine bobGate := by
  have hvariants : ∀ v ∈ bobGate.homeVariants, v = lit "/home/bob" ∨ v = lit "\\home\\bob" := by
    intro v hv
    simpa [bobGate] using hv
  have hchars : ∀ v : Str, v.all (fun c => !(lit "<>&;\"").contains c && isXmlChar c) = true →
      ∀ c ∈ v, c ∉ lit "<>&;\"" ∧ isXmlChar c = true := by
    intro v hv c hc
    have hboth := List.all_eq_true.mp hv c hc
    rw [Bool.and_eq_true, Bool.not_eq_true', List.contains_eq_mem, decide_eq_false_iff_not] at hboth
    exact hboth
  constructor
  · intro v hv
    rcases hvariants v hv with rfl | rfl
    · exact Or.inl (by decide)
    · exact Or.inr (by decide)
  · intro v hv
    rcases hvariants v hv with rfl | rfl
    · exact hchars _ (by decide)
    · exact hchars _ (by decide)
  · exact hchars _ (by decide)

/-- A check that finds no secret. -/
def anyText : Str → Except Exc Unit := fun _ => .ok ()

/-- A finding whose state is not known. -/
def unknownFinding : Finding := { accountFinding with state := .unknown, summary := "no answer" }

end Sample

theorem junit_ok_iff_bob :
    (∃ doc, renderJunit bobGate Sample.anyText (Sample.reportOf []) = .ok doc ∧
        JunitOk bobGate (Sample.reportOf []) doc) ↔
      (∀ f ∈ (Sample.reportOf []).findings, (childName f.state).isSome = true → f.evidence ≠ []) ∧
        Sample.anyText (bobGate.redact (xmlDocument (writtenTags (Sample.reportOf [])))) = .ok () ∧
        MarkupKept bobGate (writtenTags (Sample.reportOf [])) ∧
          LegalChars (writtenTags (Sample.reportOf [])) ∧
            ∀ f ∈ (Sample.reportOf []).findings, f.state ≠ .unknown :=
  junit_ok_iff Sample.bob_plain Sample.anyText (Sample.reportOf [])

/-- An unknown finding is an error that is not counted. -/
theorem unknown_finding_uncounted : ∃ doc,
    renderJunit bobGate Sample.anyText (Sample.reportOf [Sample.unknownFinding]) = .ok doc ∧
      ¬JunitOk bobGate (Sample.reportOf [Sample.unknownFinding]) doc := by
  refine ⟨_, renderJunit_eq_ok.mpr ⟨rfl, ?_, rfl⟩, fun hok => ?_⟩
  · intro f hf _
    rw [List.mem_singleton.mp hf]
    exact List.cons_ne_nil _ _
  · exact ((junitOk_iff Sample.bob_plain _).mp hok).2.2 _ List.mem_cons_self rfl

end DevRepro.Reports
