import DevRepro.Reports.Commands
import DevRepro.Reports.Html

/-!
# Text that stays text

What goes through `html.escape` is read back (`items_seen`).  Everything in a diff
does (`diff_written`), and everything in a report but the line about privacy
(`report_written`).
-/

namespace DevRepro.Reports

open DevRepro.Python DevRepro.Lib DevRepro.Privacy DevRepro.Snapshots DevRepro.Diff
open DevRepro.Mcp (Finding FindingState Evidence ReproducibilityScore PlatformInfo)

/-! ## Escapes -/

theorem htmlEscape_eq (s : Str) : htmlEscape s = htmlEscapes.escape s := by
  have hstaged : Staged htmlEscapes.mark htmlEscapes.table := by decide
  exact replaceEach_eq_escape hstaged s

theorem htmlEscapes_sound : htmlEscapes.Sound := by
  constructor
  · decide
  · decide

theorem html_readBy : Escapes.ReadBy htmlEscapes htmlEscapes :=
  ⟨rfl, htmlEscapes_sound.mark, fun _ h => h⟩

theorem escape_of_ne {s : Str} (h : ∀ c ∈ s, c ∉ htmlEscapes.table.map Prod.fst) :
    htmlEscapes.escape s = s := by
  have hsymbol : ∀ c ∈ s, htmlEscapes.symbol c = [c] := by
    intro c hc
    refine symbol_of_tail? ?_
    rw [Escapes.tail?, Option.map_eq_none_iff, List.find?_eq_none]
    intro entry hentry heq
    rw [decide_eq_true_eq] at heq
    exact h c hc (List.mem_map.mpr ⟨entry, hentry, heq⟩)
  rw [Escapes.escape, List.flatMap_congr hsymbol]
  exact List.flatMap_singleton' s

/-- A character that is written as it is. -/
def keptInHtml (c : CodePoint) : Bool :=
  c.val != 0x26 && c.val != 0x3C && c.val != 0x3E && c.val != 0x22 && c.val != 0x27

theorem escape_kept {s : Str} (h : s.all keptInHtml = true) : htmlEscapes.escape s = s := by
  have hnone : (htmlEscapes.table.map Prod.fst).all (fun c => !keptInHtml c) = true := by decide
  refine escape_of_ne fun c hc hin => ?_
  have hother := List.all_eq_true.mp hnone c hin
  rw [List.all_eq_true.mp h c hc] at hother
  exact Bool.false_ne_true hother

theorem escape_lit {s : String} {chars : List Char} (hs : s = String.ofList chars)
    (h : chars.all (fun c => keptInHtml (codePoint c)) = true) :
    htmlEscapes.escape (lit s) = lit s := escape_kept (lit_all hs h)

/-- The items with their texts escaped. -/
def escapeTexts (items : Markup CodePoint) : Markup CodePoint :=
  items.map fun item => (item.1, htmlEscapes.escape item.2)

theorem escapeTexts_append (items others : Markup CodePoint) :
    escapeTexts (items ++ others) = escapeTexts items ++ escapeTexts others := List.map_append

/-- Escaped texts are read back. -/
theorem items_seen (items : Markup CodePoint) :
    (escapeTexts items).map (fun item => htmlEscapes.unescape item.2) = items.map Prod.snd := by
  rw [escapeTexts, List.map_map]
  refine List.map_congr_left fun item _ => ?_
  exact Escapes.unescape_escape_nil htmlEscapes_sound html_readBy item.2

/-! ## Numbers -/

theorem escape_intStr (n : Int) : htmlEscapes.escape (intStr n) = intStr n := by
  have hnone : (htmlEscapes.table.map Prod.fst).all (fun c => !isNumeral c) = true := by decide
  refine escape_of_ne fun c hc hin => ?_
  have hother := List.all_eq_true.mp hnone c hin
  rw [intStr_numeral n c hc] at hother
  exact Bool.false_ne_true hother

theorem escape_percent (r : HtmlRuntime) (score : ReproducibilityScore) :
    htmlEscapes.escape (r.percent score) = r.percent score := by
  have hnone : (htmlEscapes.table.map Prod.fst).all (fun c => !isAlnum c && c != codePoint '.' &&
      c != codePoint '-' && c != codePoint '+') = true := by decide
  refine escape_of_ne fun c hc hin => ?_
  have hother := List.all_eq_true.mp hnone c hin
  simp only [Bool.and_eq_true, Bool.not_eq_true', bne_iff_ne] at hother
  rcases r.percent_plain score c hc with h | h | h | h
  · rw [hother.1.1.1] at h
    exact Bool.false_ne_true h
  · exact hother.1.1.2 h
  · exact hother.1.2 h
  · exact hother.2 h

/-! ## Items -/

theorem findingItems_escaped (f : Finding) :
    findingItems htmlEscape f = escapeTexts (findingItems id f) := by
  have hstate : htmlEscapes.escape f.state.value = f.state.value := by
    cases f.state
    all_goals exact escape_kept (by decide)
  have hnil : htmlEscapes.escape [] = [] := rfl
  have hspace : htmlEscapes.escape (lit " ") = lit " " := escape_lit rfl (by decide)
  have hdetected : htmlEscapes.escape (lit "Detected:") = lit "Detected:" := escape_lit rfl (by decide)
  have hrequired : htmlEscapes.escape (lit "Required:") = lit "Required:" := escape_lit rfl (by decide)
  have hremediation : htmlEscapes.escape (lit "Remediation:") = lit "Remediation:" := escape_lit rfl (by decide)
  have hevidence : htmlEscapes.escape (lit "Evidence") = lit "Evidence" := escape_lit rfl (by decide)
  have hline : htmlEscapes.escape (lit "\n") = lit "\n" := escape_lit rfl (by decide)
  rw [findingItems, findingItems, escapeTexts_append, escapeTexts_append, escapeTexts_append]
  congr 1
  · congr 1
    · congr 1
      · simp only [escapeTexts, List.map_cons, List.map_nil, hstate, hspace, hnil, htmlEscape_eq, id]
      · split_ifs
        · simp only [escapeTexts, List.map_cons, List.map_nil, Escapes.escape_append, hdetected,
            hspace, hrequired, hnil, htmlEscape_eq, id]
        · rfl
    · split_ifs
      · simp only [escapeTexts, List.map_cons, List.map_nil, Escapes.escape_append, hremediation,
          hspace, hnil, htmlEscape_eq, id]
      · rfl
  · simp only [escapeTexts, List.map_cons, List.map_nil, hevidence, hline, hnil, htmlEscape_eq, id]

theorem escape_reportStyle : htmlEscapes.escape reportStyle = reportStyle := by
  apply escape_kept
  simp only [reportStyle, List.all_append, Bool.and_eq_true]
  refine ⟨⟨⟨⟨⟨⟨⟨⟨⟨⟨⟨⟨⟨?_, ?_⟩, ?_⟩, ?_⟩, ?_⟩, ?_⟩, ?_⟩, ?_⟩, ?_⟩, ?_⟩, ?_⟩, ?_⟩, ?_⟩, ?_⟩
  all_goals exact lit_all rfl (by decide)

theorem escape_diffStyle : htmlEscapes.escape diffStyle = diffStyle := by
  apply escape_kept
  simp only [diffStyle, List.all_append, Bool.and_eq_true]
  refine ⟨⟨?_, ?_⟩, ?_⟩
  all_goals exact lit_all rfl (by decide)

theorem headItems_escaped (report : ScanReport) :
    headItems htmlEscape report = escapeTexts (headItems id report) := by
  have hnil : htmlEscapes.escape [] = [] := rfl
  have hline : htmlEscapes.escape (lit "\n") = lit "\n" := escape_lit rfl (by decide)
  have htitle : htmlEscapes.escape (lit "DevRepro Doctor Report") = lit "DevRepro Doctor Report" := escape_lit rfl (by decide)
  have hname : htmlEscapes.escape (lit "DevRepro Doctor ") = lit "DevRepro Doctor " := escape_lit rfl (by decide)
  simp only [headItems, escapeTexts, List.map_cons, List.map_nil, hnil, escape_reportStyle, hline,
    htitle, hname, htmlEscape_eq, id]

theorem scoreItems_escaped (r : HtmlRuntime) (score : Option ReproducibilityScore) {gap : Str}
    (hgap : htmlEscapes.escape gap = gap) :
    scoreItems r score gap = escapeTexts (scoreItems r score gap) := by
  have hline : htmlEscapes.escape (lit "\n") = lit "\n" := escape_lit rfl (by decide)
  have hscore : htmlEscapes.escape (lit "Reproducibility completeness: ") = lit "Reproducibility completeness: " := escape_lit rfl (by decide)
  have hslash : htmlEscapes.escape (lit "/") = lit "/" := escape_lit rfl (by decide)
  have hopen : htmlEscapes.escape (lit " (") = lit " (" := escape_lit rfl (by decide)
  have honly : htmlEscapes.escape (lit "%) — describes declaration completeness only; ") =
      lit "%) — describes declaration completeness only; " := escape_lit rfl (by decide)
  have hguarantee : htmlEscapes.escape (lit "it does not guarantee reproducibility.") =
      lit "it does not guarantee reproducibility." := escape_lit rfl (by decide)
  cases score with
  | none =>
    simp only [scoreItems, escapeTexts, List.map_cons, List.map_nil, Escapes.escape_append, hline, hgap]
  | some score =>
    simp only [scoreItems, escapeTexts, List.map_cons, List.map_nil, Escapes.escape_append, hline, hgap,
      hscore, hslash, hopen, honly, hguarantee, escape_intStr, escape_percent]

theorem footItems_escaped : footItems = escapeTexts footItems := by
  have hline : htmlEscapes.escape (lit "\n") = lit "\n" := escape_lit rfl (by decide)
  have hfoot : htmlEscapes.escape
      (lit "Generated locally by DevRepro Doctor. No data left this machine.") =
      lit "Generated locally by DevRepro Doctor. No data left this machine." :=
    escape_lit rfl (by decide)
  simp only [footItems, escapeTexts, List.map_cons, List.map_nil, hline, hfoot]

theorem flatMap_escaped {ι : Type} {make shown : ι → Markup CodePoint}
    (h : ∀ x, make x = escapeTexts (shown x)) (items : List ι) :
    items.flatMap make = escapeTexts (items.flatMap shown) := by
  have hmake : make = fun x => escapeTexts (shown x) := funext h
  rw [hmake, escapeTexts, List.map_flatMap]
  rfl

/-- Every text of a report is escaped, but for the line about privacy. -/
theorem report_written (r : HtmlRuntime) (report : ScanReport) :
    htmlItems htmlEscape r report =
      escapeTexts (headItems id report) ++ [(lit "p", privacyText r report)] ++
        escapeTexts (scoreItems r report.score
          (lit "\n" ++ if report.findings = [] then lit "\n" else [])) ++
        escapeTexts ((ordered report).flatMap (findingItems id)) ++ escapeTexts footItems := by
  have hgap : htmlEscapes.escape (lit "\n" ++ if report.findings = [] then lit "\n" else []) =
      lit "\n" ++ if report.findings = [] then lit "\n" else [] := by
    split_ifs
    · exact escape_kept (by decide)
    · exact escape_kept (by decide)
  rw [← scoreItems_escaped r report.score hgap, ← footItems_escaped, ← headItems_escaped,
    ← flatMap_escaped findingItems_escaped, htmlItems]

theorem report_seen_iff (r : HtmlRuntime) (report : ScanReport) :
    (htmlItems htmlEscape r report).map (fun item => htmlEscapes.unescape item.2) =
        (htmlItems id r report).map Prod.snd ↔
      Escapes.Unmarked htmlEscapes (privacyText r report) := by
  have htails : ∀ entry ∈ htmlEscapes.table, entry.2 ≠ [] := by decide
  rw [report_written, htmlItems, ← Escapes.unescape_eq_self_iff htails]
  simp only [List.map_append, items_seen, List.map_cons, List.map_nil, List.append_cancel_right_eq,
    List.append_cancel_left_eq, List.cons.injEq, and_true]

/-- Every text of a diff is escaped. -/
theorem diff_written (diff : EnvironmentDiff) :
    diffItems htmlEscape diff = escapeTexts (diffItems id diff) := by
  have hnil : htmlEscapes.escape [] = [] := rfl
  have htitle : htmlEscapes.escape (lit "Environment Diff") = lit "Environment Diff" := escape_lit rfl (by decide)
  have hheading : htmlEscapes.escape (lit "Environment diff") = lit "Environment diff" := escape_lit rfl (by decide)
  have harrow : htmlEscapes.escape (lit " → ") = lit " → " := escape_lit rfl (by decide)
  have hcomponent : htmlEscapes.escape (lit "Component") = lit "Component" := escape_lit rfl (by decide)
  have hname : htmlEscapes.escape (lit "Name") = lit "Name" := escape_lit rfl (by decide)
  have hclass : htmlEscapes.escape (lit "Classification") = lit "Classification" := escape_lit rfl (by decide)
  have ha : htmlEscapes.escape (lit "A") = lit "A" := escape_lit rfl (by decide)
  have hb : htmlEscapes.escape (lit "B") = lit "B" := escape_lit rfl (by decide)
  have hcritical : htmlEscapes.escape (lit "Critical") = lit "Critical" := escape_lit rfl (by decide)
  have hsign : htmlEscapes.escape (lit "⚠️") = lit "⚠️" := escape_lit rfl (by decide)
  have hfoot : htmlEscapes.escape (lit "Generated locally by DevRepro Doctor.") =
      lit "Generated locally by DevRepro Doctor." := escape_lit rfl (by decide)
  have hentry : ∀ e, entryItems htmlEscape e = escapeTexts (entryItems id e) := by
    intro e
    have hmark : htmlEscapes.escape (if e.projectCritical then lit "⚠️" else []) =
        if e.projectCritical then lit "⚠️" else [] := by
      split_ifs
      · exact hsign
      · exact hnil
    simp only [entryItems, cellItems, escapeTexts, List.flatMap_cons, List.flatMap_nil, List.map_cons,
      List.map_nil, List.map_append, hnil, hmark, htmlEscape_eq, id]
  have hentries := flatMap_escaped hentry diff.entries
  rw [diffItems, diffItems, escapeTexts_append, escapeTexts_append, escapeTexts_append,
    escapeTexts_append, hentries]
  simp only [escapeTexts, cellItems, List.flatMap_cons, List.flatMap_nil, List.map_cons, List.map_nil,
    List.map_append, Escapes.escape_append, hnil, htitle, escape_diffStyle, hheading, harrow,
    hcomponent, hname, hclass, ha, hb, hcritical, hfoot, htmlEscape_eq, id]

/-! ## Tags -/

/-- A tag without an angle bracket. -/
def plainTag (tag : Str) : Bool := tag.all fun c => c != codePoint '<' && c != codePoint '>'

theorem findingItems_tags (esc : Str → Str) (f : Finding) :
    (findingItems esc f).map Prod.fst = findingTags (shapeOf f) := by
  rw [findingItems, findingTags, List.map_append, List.map_append, List.map_append]
  congr 1
  congr 1
  · congr 1
    show List.map Prod.fst (if given f.detected || given f.required then _ else _) =
      if given f.detected || given f.required then _ else _
    split_ifs
    · rfl
    · rfl
  · show List.map Prod.fst (if given f.remediationHint then _ else _) =
      if given f.remediationHint then _ else _
    split_ifs
    · rfl
    · rfl

theorem report_tags (esc : Str → Str) (r : HtmlRuntime) (report : ScanReport) :
    (htmlItems esc r report).map Prod.fst =
      reportTags report.score.isSome ((ordered report).map shapeOf) := by
  have hfindings : ((ordered report).flatMap (findingItems esc)).map Prod.fst =
      ((ordered report).map shapeOf).flatMap findingTags := by
    rw [List.map_flatMap, List.flatMap_map]
    congr 1
    funext f
    exact findingItems_tags esc f
  simp only [htmlItems, List.map_append, hfindings, reportTags]
  cases report.score
  · rfl
  · rfl

theorem diff_tags (esc : Str → Str) (diff : EnvironmentDiff) :
    (diffItems esc diff).map Prod.fst = diffTags diff.entries.length := by
  have hentries : (diff.entries.flatMap (entryItems esc)).map Prod.fst =
      (List.replicate diff.entries.length ([lit "tr"] ++
        (List.replicate 6 [lit "td", lit "/td"]).flatten ++ [lit "/tr"])).flatten := by
    rw [List.map_flatMap]
    generalize diff.entries = entries
    induction entries with
    | nil => rfl
    | cons e entries ih =>
      rw [List.flatMap_cons, List.length_cons, List.replicate_succ, List.flatten_cons, ih]
      rfl
  simp only [diffItems, List.map_append, hentries, diffTags]
  rfl

theorem findingTags_plain (s : FindingShape) : (findingTags s).all plainTag = true := by
  obtain ⟨state, versions, hint⟩ := s
  have hstart : [lit "section", lit "span class='badge " ++ state.value ++ lit "'", lit "/span",
      lit "code", lit "/code", lit "p", lit "/p"].all plainTag = true := by
    cases state
    all_goals decide
  have hversions : (if versions then [lit "p", lit "b", lit "/b", lit "b", lit "/b", lit "/p"]
      else []).all plainTag = true := by
    cases versions
    · rfl
    · decide
  have hhint : (if hint then [lit "p", lit "b", lit "/b", lit "/p"] else []).all plainTag = true := by
    cases hint
    · rfl
    · decide
  have hend : [lit "details", lit "summary", lit "/summary", lit "pre", lit "/pre", lit "/details",
      lit "/section"].all plainTag = true := by decide
  rw [findingTags, List.all_append, List.all_append, List.all_append, hstart, hversions, hhint, hend]
  rfl

theorem reportTags_plain (score : Bool) (shapes : List FindingShape) :
    (reportTags score shapes).all plainTag = true := by
  have hhead : [lit "!doctype html", lit "html lang=\"en\"", lit "head", lit "meta charset=\"utf-8\"",
      lit "meta name=\"viewport\" content=\"width=device-width, initial-scale=1\"", lit "title",
      lit "/title", lit "style", lit "/style", lit "/head", lit "body", lit "h1", lit "small",
      lit "/small", lit "/h1", lit "p", lit "/p", lit "p", lit "/p"].all plainTag = true := by
    decide +kernel
  have hscore : (if score then [lit "p", lit "b", lit "/b", lit "/p"] else []).all plainTag = true := by
    cases score
    · rfl
    · decide
  have hfindings : (shapes.flatMap findingTags).all plainTag = true := by
    rw [List.all_flatMap, List.all_eq_true]
    exact fun s _ => findingTags_plain s
  have hfoot : [lit "footer", lit "/footer", lit "/body", lit "/html"].all plainTag = true := by
    decide +kernel
  rw [reportTags, List.all_append, List.all_append, List.all_append, hhead, hscore, hfindings, hfoot]
  rfl

theorem diffTags_plain (n : Nat) : (diffTags n).all plainTag = true := by
  have hhead : [lit "!doctype html", lit "html lang='en'", lit "head", lit "meta charset='utf-8'",
      lit "title", lit "/title", lit "style", lit "/style", lit "/head", lit "body", lit "h1",
      lit "/h1", lit "p", lit "/p", lit "p", lit "/p", lit "table", lit "tr"].all plainTag = true := by
    decide +kernel
  have hheader : (List.replicate 6 [lit "th", lit "/th"]).flatten.all plainTag = true := by
    decide +kernel
  have hrow : [lit "/tr"].all plainTag = true := by decide
  have hentry : ([lit "tr"] ++ (List.replicate 6 [lit "td", lit "/td"]).flatten ++
      [lit "/tr"]).all plainTag = true := by decide
  have hentries : (List.replicate n ([lit "tr"] ++ (List.replicate 6 [lit "td", lit "/td"]).flatten ++
      [lit "/tr"])).flatten.all plainTag = true := by
    rw [List.all_flatten, List.all_eq_true]
    intro tags htags
    rw [List.eq_of_mem_replicate htags, hentry]
  have hfoot : [lit "/table", lit "footer", lit "/footer", lit "/body", lit "/html"].all plainTag =
      true := by decide
  rw [diffTags, List.all_append, List.all_append, List.all_append, List.all_append, hhead, hheader,
    hrow, hentries, hfoot]
  rfl

end DevRepro.Reports
