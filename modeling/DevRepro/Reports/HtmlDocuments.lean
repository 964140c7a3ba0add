import DevRepro.Privacy.Markup
import DevRepro.Privacy.Report
import DevRepro.Reports.HtmlText

/-!
# Documents that keep their tags

A document has the tags that its shape says, until a redaction puts a placeholder in
angle brackets into it (`faithful_iff`).  `html_text_iff` says so of the two
documents that the program writes.
-/

namespace DevRepro.Reports

open DevRepro.Python DevRepro.Lib DevRepro.Privacy DevRepro.Snapshots DevRepro.Diff
open DevRepro.Mcp (Finding FindingState Evidence)

/-! ## The redaction -/

variable {normcase : Str → Str} {gate : PrivacyGate normcase}

/-- A machine whose paths and account name have no angle bracket. -/
structure PrivacyGate.Bracketless (gate : PrivacyGate normcase) : Prop where
  variants : ∀ v ∈ gate.homeVariants, codePoint '<' ∉ v ∧ codePoint '>' ∉ v
  username : codePoint '<' ∉ gate.username ∧ codePoint '>' ∉ gate.username

theorem PrivacyGate.Bracketless.lt (h : PrivacyGate.Bracketless gate) : gate.Clear (codePoint '<') :=
  ⟨⟨by decide, by decide, by decide⟩, fun v hv => (h.variants v hv).1, h.username.1⟩

theorem PrivacyGate.Bracketless.gt (h : PrivacyGate.Bracketless gate) : gate.Clear (codePoint '>') :=
  ⟨⟨by decide, by decide, by decide⟩, fun v hv => (h.variants v hv).2, h.username.2⟩

/-- The redaction finds no more than the home path in a text. -/
def Impersonal (gate : PrivacyGate normcase) (text : Str) : Prop :=
  gate.redact text = gate.redactHome text

/-- A redacted text has a tag in it when it had one, or when something personal was found. -/
theorem not_mem_redact_iff (h : PrivacyGate.Bracketless gate) (text : Str) :
    codePoint '<' ∉ gate.redact text ↔ codePoint '<' ∉ text ∧ Impersonal gate text := by
  constructor
  · intro hnot
    exact ⟨fun hin => hnot (mem_redact h.lt hin), redact_eq_home hnot⟩
  · rintro ⟨htext, hsame⟩ hin
    rw [hsame] at hin
    exact not_mem_redactHome (by decide) htext hin

/-- What the redaction must leave alone for a document to keep its tags. -/
structure LeftAlone (gate : PrivacyGate normcase) (tags : List Str) (written : Markup CodePoint) :
    Prop where
  tags : ∀ tag ∈ tags, gate.redact tag = tag
  texts : ∀ item ∈ written, codePoint '<' ∉ item.2 ∧ Impersonal gate item.2

theorem faithful_iff (h : PrivacyGate.Bracketless gate) {tags : List Str}
    {written seen : Markup CodePoint} (htags : written.map Prod.fst = tags)
    (hplain : tags.all plainTag = true) :
    Faithful gate tags written seen (gate.redact (document written)) ↔
      LeftAlone gate tags written ∧
        written.map (fun item => htmlEscapes.unescape item.2) = seen.map Prod.snd := by
  have hne : codePoint '<' ≠ codePoint '>' := by decide
  have hdoc : gate.redact (document written) = document (written.map gate.redactItem) :=
    redact_printMarkup h.lt h.gt written
  have hbrackets : ∀ item ∈ written, codePoint '<' ∉ item.1 ∧ codePoint '>' ∉ item.1 := by
    intro item hitem
    have hmem : item.1 ∈ tags := htags ▸ List.mem_map_of_mem hitem
    have htag := List.all_eq_true.mp (List.all_eq_true.mp hplain item.1 hmem)
    refine ⟨fun hin => ?_, fun hin => ?_⟩
    · exact absurd (htag _ hin) (by decide)
    · exact absurd (htag _ hin) (by decide)
  -- Without a bracket from the redaction, the items are read back.
  have hread : (∀ item ∈ written, codePoint '<' ∉ gate.redact item.1 ∧
      codePoint '<' ∉ gate.redact item.2) →
      tagsIn (document (written.map gate.redactItem)) = written.map gate.redactItem := by
    intro hnone
    refine readMarkup_printMarkup hne fun redacted hredacted => ?_
    obtain ⟨item, hitem, rfl⟩ := List.mem_map.mp hredacted
    refine ⟨(hnone item hitem).1, fun hin => ?_, (hnone item hitem).2⟩
    change codePoint '>' ∈ gate.redact item.1 at hin
    rw [redact_eq_home (hnone item hitem).1] at hin
    exact not_mem_redactHome (by decide) (hbrackets item hitem).2 hin
  constructor
  · rintro ⟨hsame, -, hseen⟩
    rw [hdoc] at hsame
    have hcount : (document (written.map gate.redactItem)).count (codePoint '<') =
        (written.map gate.redactItem).length := by
      have hlen := congrArg List.length hsame
      rw [List.length_map, tagsIn, length_readMarkup, ← htags, List.length_map] at hlen
      rw [hlen, List.length_map]
    have hnone : ∀ item ∈ written, codePoint '<' ∉ gate.redact item.1 ∧
        codePoint '<' ∉ gate.redact item.2 := fun item hitem =>
      (count_printMarkup_eq_length hne).mp hcount _ (List.mem_map_of_mem hitem)
    rw [hread hnone, ← htags, List.map_map] at hsame
    refine ⟨⟨fun tag htag => ?_, fun item hitem => ?_⟩, hseen⟩
    · rw [← htags] at htag
      obtain ⟨item, hitem, rfl⟩ := List.mem_map.mp htag
      exact List.map_inj_left.mp hsame item hitem
    · exact (not_mem_redact_iff h _).mp (hnone item hitem).2
  · rintro ⟨⟨htag, htext⟩, hseen⟩
    have hkept : ∀ item ∈ written, gate.redact item.1 = item.1 := fun item hitem =>
      htag item.1 (htags ▸ List.mem_map_of_mem hitem)
    have hnone : ∀ item ∈ written, codePoint '<' ∉ gate.redact item.1 ∧
        codePoint '<' ∉ gate.redact item.2 := by
      intro item hitem
      rw [hkept item hitem]
      exact ⟨(hbrackets item hitem).1, (not_mem_redact_iff h _).mpr (htext item hitem)⟩
    refine ⟨?_, ?_, hseen⟩
    · rw [hdoc, hread hnone, ← htags, List.map_map]
      exact List.map_congr_left hkept
    · rw [hdoc, hread hnone, List.map_map, List.map_map]
      rfl

/-! ## The documents -/

theorem escapeTexts_no_tag {items : Markup CodePoint} {item : Str × Str}
    (h : item ∈ escapeTexts items) : codePoint '<' ∉ item.2 := by
  obtain ⟨shown, -, rfl⟩ := List.mem_map.mp h
  refine Escapes.not_mem_escape ?_ ?_ ?_ _
  · decide
  · decide
  · decide

/-- A report that stays as it is meant to be: no tag holds what the redaction looks for, the line
about privacy has no markup in it, and in no text is anything personal but the home path. -/
structure CleanReport (r : HtmlRuntime) (gate : PrivacyGate normcase) (report : ScanReport) : Prop where
  tags : ∀ tag ∈ reportTags report.score.isSome ((ordered report).map shapeOf), gate.redact tag = tag
  privacy : codePoint '<' ∉ privacyText r report ∧
    Escapes.Unmarked htmlEscapes (privacyText r report)
  texts : ∀ item ∈ htmlItems htmlEscape r report, Impersonal gate item.2

/-- A diff that stays as it is meant to be. -/
structure CleanDiff (gate : PrivacyGate normcase) (diff : EnvironmentDiff) : Prop where
  tags : ∀ tag ∈ diffTags diff.entries.length, gate.redact tag = tag
  texts : ∀ item ∈ diffItems htmlEscape diff, Impersonal gate item.2

theorem leftAlone_report_iff (r : HtmlRuntime) (gate : PrivacyGate normcase) (report : ScanReport) :
    LeftAlone gate (reportTags report.score.isSome ((ordered report).map shapeOf))
        (htmlItems htmlEscape r report) ∧ Escapes.Unmarked htmlEscapes (privacyText r report) ↔
      CleanReport r gate report := by
  constructor
  · rintro ⟨⟨htags, htexts⟩, hunmarked⟩
    have hline : (lit "p", privacyText r report) ∈ htmlItems htmlEscape r report := by
      rw [report_written]
      simp
    exact ⟨htags, ⟨(htexts _ hline).1, hunmarked⟩, fun item hitem => (htexts item hitem).2⟩
  · rintro ⟨htags, hprivacy, htexts⟩
    refine ⟨⟨htags, fun item hitem => ⟨?_, htexts item hitem⟩⟩, hprivacy.2⟩
    rw [report_written] at hitem
    simp only [List.mem_append, List.mem_singleton] at hitem
    rcases hitem with (((h | rfl) | h) | h) | h
    · exact escapeTexts_no_tag h
    · exact hprivacy.1
    · exact escapeTexts_no_tag h
    · exact escapeTexts_no_tag h
    · exact escapeTexts_no_tag h

/-- No text becomes a tag and every text is read back, up to its redaction, exactly when the line
about privacy has no markup in it and the redaction puts no placeholder into the document. -/
theorem html_text_iff (r : HtmlRuntime) {gate : PrivacyGate normcase}
    (h : PrivacyGate.Bracketless gate) (assertNoSecrets : Str → Except Exc Unit) :
    (∀ report doc, renderHtml r gate assertNoSecrets report = .ok doc →
      (Faithful gate (reportTags report.score.isSome ((ordered report).map shapeOf))
        (htmlItems htmlEscape r report) (htmlItems id r report) doc ↔ CleanReport r gate report)) ∧
    ∀ diff doc, renderDiffHtml gate assertNoSecrets diff = .ok doc →
      (Faithful gate (diffTags diff.entries.length) (diffItems htmlEscape diff) (diffItems id diff)
        doc ↔ CleanDiff gate diff) := by
  constructor
  · intro report doc hdoc
    have heq : doc = gate.redact (document (htmlItems htmlEscape r report)) := by
      rw [renderHtml] at hdoc
      split_ifs at hdoc
      · obtain ⟨_, hraise, _⟩ := bind_eq_ok.mp hdoc
        cases hraise
      · obtain ⟨_, _, hdoc⟩ := bind_eq_ok.mp hdoc
        exact (Except.ok.inj hdoc).symm
    rw [heq, faithful_iff h (report_tags htmlEscape r report) (reportTags_plain _ _), report_seen_iff,
      leftAlone_report_iff]
  · intro diff doc hdoc
    have heq : doc = gate.redact (document (diffItems htmlEscape diff)) := by
      obtain ⟨_, _, hdoc⟩ := bind_eq_ok.mp hdoc
      exact (Except.ok.inj hdoc).symm
    have hseen : (diffItems htmlEscape diff).map (fun item => htmlEscapes.unescape item.2) =
        (diffItems id diff).map Prod.snd := by rw [diff_written, items_seen]
    rw [heq, faithful_iff h (diff_tags htmlEscape diff) (diffTags_plain _), and_iff_left hseen]
    constructor
    · exact fun hleft => ⟨hleft.tags, fun item hitem => (hleft.texts item hitem).2⟩
    · rintro ⟨htags, htexts⟩
      refine ⟨htags, fun item hitem => ⟨?_, htexts item hitem⟩⟩
      rw [diff_written] at hitem
      exact escapeTexts_no_tag hitem

/-! ## Examples -/

namespace Sample

def htmlRuntime : HtmlRuntime where
  rt := .standard
  reprOf := fun _ => []
  percent := fun _ => "50.0"
  percent_plain := by
    have hall : (lit "50.0").all (fun c => isAlnum c || c == codePoint '.') = true := by decide
    intro _ c hc
    have h := List.all_eq_true.mp hall c hc
    rw [Bool.or_eq_true, beq_iff_eq] at h
    exact h.imp_right Or.inl

theorem bob_bracketless : PrivacyGate.Bracketless bobGate := by
  constructor
  · intro v hv
    have hv' : v = lit "/home/bob" ∨ v = lit "\\home\\bob" := by simpa [bobGate] using hv
    rcases hv' with rfl | rfl
    · decide
    · decide
  · decide

/-- A finding about an account. -/
def accountFinding : Finding where
  ruleId := "shell/owner"
  state := .warn
  summary := "bob"
  evidence := [⟨"system", none, none, none, true⟩]
  detected := none
  required := none
  component := none
  remediationHint := none
  references := []
  probeId := none

end Sample

theorem html_text_iff_bob :
    (Faithful bobGate (reportTags false []) (htmlItems htmlEscape Sample.htmlRuntime (Sample.reportOf []))
      (htmlItems id Sample.htmlRuntime (Sample.reportOf []))
      (bobGate.redact (document (htmlItems htmlEscape Sample.htmlRuntime (Sample.reportOf [])))) ↔
        CleanReport Sample.htmlRuntime bobGate (Sample.reportOf [])) ∧
    (Faithful bobGate (diffTags 0) (diffItems htmlEscape ⟨"a", "b", []⟩) (diffItems id ⟨"a", "b", []⟩)
      (bobGate.redact (document (diffItems htmlEscape ⟨"a", "b", []⟩))) ↔
        CleanDiff bobGate ⟨"a", "b", []⟩) := by
  have h := html_text_iff Sample.htmlRuntime Sample.bob_bracketless (fun _ => .ok ())
  have hsorted : ordered (Sample.reportOf []) = [] := by simp [ordered, Sample.reportOf]
  refine ⟨?_, h.2 ⟨"a", "b", []⟩ _ rfl⟩
  have hreport := h.1 (Sample.reportOf []) _ rfl
  rw [hsorted] at hreport
  exact hreport

/-- The account name in a summary becomes a tag. -/
theorem account_name_becomes_tag : ∃ doc,
    renderHtml Sample.htmlRuntime bobGate (fun _ => .ok ())
        (Sample.reportOf [Sample.accountFinding]) = .ok doc ∧
      ¬Faithful bobGate (reportTags false [shapeOf Sample.accountFinding])
        (htmlItems htmlEscape Sample.htmlRuntime (Sample.reportOf [Sample.accountFinding]))
        (htmlItems id Sample.htmlRuntime (Sample.reportOf [Sample.accountFinding])) doc := by
  have hsorted : ordered (Sample.reportOf [Sample.accountFinding]) = [Sample.accountFinding] := by
    simp [ordered, Sample.reportOf]
  have htags := report_tags htmlEscape Sample.htmlRuntime (Sample.reportOf [Sample.accountFinding])
  rw [hsorted] at htags
  refine ⟨_, rfl, fun hfaithful => ?_⟩
  have hleft := ((faithful_iff Sample.bob_bracketless htags (reportTags_plain _ _)).mp hfaithful).1
  have hitem : (lit "p", htmlEscape (lit "bob")) ∈
      htmlItems htmlEscape Sample.htmlRuntime (Sample.reportOf [Sample.accountFinding]) := by
    rw [htmlItems, hsorted]
    simp [findingItems, Sample.accountFinding]
  have hpersonal := (hleft.texts _ hitem).2
  have hfound : ¬Impersonal bobGate (htmlEscape (lit "bob")) := by
    rw [Impersonal]
    decide
  exact hfound hpersonal

end DevRepro.Reports
