import DevRepro.Lib.Markup
import DevRepro.Reports.Tables

/-!
# HTML reports

`render_html` and `render_diff_html` of `reports/renderers.py`.  A document is
written tag by tag, each tag with the text behind it, and then redacted as one text.

The texts of a report go through an escape that is a parameter: with `htmlEscape`
the items are what is written, and with no escape they are what a reader should see.
-/

namespace DevRepro.Reports

open DevRepro.Python DevRepro.Lib DevRepro.Privacy DevRepro.Snapshots DevRepro.Diff
open DevRepro.Mcp (Finding FindingState Evidence ReproducibilityScore PlatformInfo)

/-- `html.escape`. -/
def htmlEscape (s : Str) : Str :=
  replaceText "'" "&#x27;" (replaceText "\"" "&quot;" (replaceText ">" "&gt;"
    (replaceText "<" "&lt;" (replaceText "&" "&amp;" s))))

/-- A document of tags. -/
def document (items : Markup CodePoint) : Str := printMarkup (codePoint '<') (codePoint '>') items

/-- What the runtime makes of values that are no texts. -/
structure HtmlRuntime where
  rt : Runtime
  /-- `str` of a list or a dictionary. -/
  reprOf : Json → Str
  /-- `score.percent` as a text. -/
  percent : ReproducibilityScore → Str
  /-- A float has digits, a sign, a point and letters. -/
  percent_plain : ∀ score, ∀ c ∈ percent score,
    isAlnum c = true ∨ c = codePoint '.' ∨ c = codePoint '-' ∨ c = codePoint '+'

/-- `str(value)`. -/
def HtmlRuntime.pyStr (r : HtmlRuntime) : Option Json → Str
  | none => "None"
  | some .null => "None"
  | some (.bool b) => boolStr b
  | some (.int n) => intStr n
  | some (.float x) => r.rt.floatRepr x
  | some (.str s) => s
  | some (.arr elems) => r.reprOf (.arr elems)
  | some (.obj fields) => r.reprOf (.obj fields)

/-! ## Findings -/

/-- `_STATE_ORDER.index(state)`. -/
def htmlOrder : FindingState → Nat
  | .blocked => 0
  | .error => 1
  | .warn => 2
  | .unknown => 3
  | .info => 4
  | .pass => 5

/-- The findings, the most severe ones first. -/
def ordered (report : ScanReport) : List Finding :=
  report.findings.mergeSort fun f g => htmlOrder f.state ≤ htmlOrder g.state

/-- Where an evidence comes from. -/
def evidenceSource (ev : Evidence) : Str :=
  match ev.command with
  | some (arg :: args) => join " " (arg :: args)
  | _ => if ev.path.getD [] ≠ [] then ev.path.getD [] else ev.source

/-- The text of `f.evidence[0]`, cut at 800 characters behind its source. -/
def evidenceText (f : Finding) : Str :=
  match f.evidence with
  | [] => []
  | ev :: _ => evidenceSource ev ++ (lit "\n" ++ ev.excerpt.getD []).take 800

/-- A text that is there and not empty. -/
def given (text : Option Str) : Bool := text.getD [] ≠ []

/-- The part of a finding, with the line break behind it. -/
def findingItems (esc : Str → Str) (f : Finding) : Markup CodePoint :=
  [(lit "section", []), (lit "span class='badge " ++ f.state.value ++ lit "'", f.state.value),
    (lit "/span", lit " "), (lit "code", esc f.ruleId), (lit "/code", []), (lit "p", esc f.summary),
    (lit "/p", [])] ++
  (if given f.detected || given f.required then
    [(lit "p", []), (lit "b", lit "Detected:"),
      (lit "/b", lit " " ++ esc (strOf f.detected) ++ lit " "), (lit "b", lit "Required:"),
      (lit "/b", lit " " ++ esc (strOf f.required)), (lit "/p", [])]
  else []) ++
  (if given f.remediationHint then
    [(lit "p", []), (lit "b", lit "Remediation:"),
      (lit "/b", lit " " ++ esc (f.remediationHint.getD [])), (lit "/p", [])]
  else []) ++
  [(lit "details", []), (lit "summary", lit "Evidence"), (lit "/summary", []),
    (lit "pre", esc (evidenceText f)), (lit "/pre", []), (lit "/details", []),
    (lit "/section", lit "\n")]

/-! ## Reports -/

/-- The style sheet of a report. -/
def reportStyle : Str :=
  lit "\n  :root \x7b color-scheme: light dark; \x7d" ++
    lit "\n  body \x7b font-family: system-ui, sans-serif; margin: 2rem auto; max-width: 60rem;" ++
    lit "\n         padding: 0 1rem; line-height: 1.5; \x7d" ++
    lit "\n  .badge \x7b display:inline-block; padding:.1rem .5rem; border-radius:.4rem;" ++
    lit "\n            font-size:.8rem; font-weight:600; \x7d" ++
    lit "\n  .BLOCKED \x7b background:#b91c1c; color:#fff; \x7d" ++
    lit "\n  .ERROR \x7b background:#dc2626; color:#fff; \x7d" ++
    lit "\n  .WARN \x7b background:#d97706; color:#fff; \x7d" ++
    lit "\n  .UNKNOWN \x7b background:#6b7280; color:#fff; \x7d" ++
    lit "\n  .INFO \x7b background:#2563eb; color:#fff; \x7d" ++
    lit "\n  .PASS \x7b background:#16a34a; color:#fff; \x7d" ++
    lit "\n  details \x7b margin:.5rem 0; padding-left:1rem; border-left:3px solid #8888; \x7d" ++
    lit "\n  pre \x7b white-space:pre-wrap; word-break:break-all; \x7d" ++
    lit "\n  h1 small \x7b font-weight:400; opacity:.7; \x7d\n"

def platformText (p : PlatformInfo) : Str :=
  p.osName ++ lit " " ++ p.osVersion ++ lit " (" ++ p.arch ++ lit ")"

/-- The line about privacy, whose two values are written as they are. -/
def privacyText (r : HtmlRuntime) (report : ScanReport) : Str :=
  lit "Privacy: redacted=" ++ r.pyStr (dictGet? report.privacy "redacted") ++
    lit ", secrets_blocked=" ++ r.pyStr (dictGet? report.privacy "secrets_blocked")

/-- The score, and what stands between it and the findings. -/
def scoreItems (r : HtmlRuntime) (score : Option ReproducibilityScore) (gap : Str) :
    Markup CodePoint :=
  match score with
  | none => [(lit "/p", lit "\n" ++ gap)]
  | some score =>
    [(lit "/p", lit "\n"), (lit "p", lit "Reproducibility completeness: "),
      (lit "b", intStr score.total ++ lit "/" ++ intStr score.possible),
      (lit "/b", lit " (" ++ r.percent score ++
        (lit "%) — describes declaration completeness only; " ++
          lit "it does not guarantee reproducibility.")),
      (lit "/p", gap)]

/-- The head of a report, up to the line about privacy. -/
def headItems (esc : Str → Str) (report : ScanReport) : Markup CodePoint :=
  [(lit "!doctype html", lit "\n"), (lit "html lang=\"en\"", lit "\n"), (lit "head", lit "\n"),
    (lit "meta charset=\"utf-8\"", lit "\n"),
    (lit "meta name=\"viewport\" content=\"width=device-width, initial-scale=1\"", lit "\n"),
    (lit "title", lit "DevRepro Doctor Report"), (lit "/title", lit "\n"), (lit "style", reportStyle),
    (lit "/style", lit "\n"), (lit "/head", lit "\n"), (lit "body", lit "\n"),
    (lit "h1", lit "DevRepro Doctor "), (lit "small", esc report.createdAt), (lit "/small", []),
    (lit "/h1", lit "\n"), (lit "p", esc (platformText report.platform)), (lit "/p", lit "\n")]

def footItems : Markup CodePoint :=
  [(lit "footer", lit "Generated locally by DevRepro Doctor. No data left this machine."),
    (lit "/footer", lit "\n"), (lit "/body", lit "\n"), (lit "/html", lit "\n")]

/-- The items of a report. -/
def htmlItems (esc : Str → Str) (r : HtmlRuntime) (report : ScanReport) : Markup CodePoint :=
  headItems esc report ++ [(lit "p", privacyText r report)] ++
    scoreItems r report.score (lit "\n" ++ if report.findings = [] then lit "\n" else []) ++
    (ordered report).flatMap (findingItems esc) ++ footItems

variable {normcase : Str → Str}

/-- `render_html`, with `assert_no_secrets` as a parameter. -/
def renderHtml (r : HtmlRuntime) (gate : PrivacyGate normcase)
    (assertNoSecrets : Str → Except Exc Unit) (report : ScanReport) : Except Exc Str := do
  if report.findings.any fun f => f.evidence.isEmpty then
    throw ⟨.other "IndexError", "tuple index out of range"⟩
  let doc := gate.redact (document (htmlItems htmlEscape r report))
  assertNoSecrets doc
  return doc

/-! ## Diffs -/

def diffStyle : Str :=
  lit "body\x7bfont-family:system-ui,sans-serif;margin:2rem auto;max-width:60rem;padding:0 1rem\x7d" ++
    lit "table\x7bborder-collapse:collapse;width:100%\x7d" ++
    lit "td,th\x7bborder:1px solid #8888;padding:.35rem .6rem;text-align:left;font-size:.9rem\x7d"

/-- A cell of a table. -/
def cellItems (name text : Str) : Markup CodePoint := [(name, text), (lit "/" ++ name, [])]

def entryItems (esc : Str → Str) (e : DiffEntry) : Markup CodePoint :=
  [(lit "tr", [])] ++
    ([esc e.component, esc e.name, esc (classificationText e.classification),
      esc (valueOrDash e.aValue), esc (valueOrDash e.bValue),
      if e.projectCritical then "⚠️" else []].flatMap (cellItems "td")) ++
    [(lit "/tr", [])]

def diffCountsText (diff : EnvironmentDiff) : Str :=
  join ", " ((sortedCounts diff).map fun item => item.1 ++ lit ": " ++ natStr item.2)

/-- The items of a diff. -/
def diffItems (esc : Str → Str) (diff : EnvironmentDiff) : Markup CodePoint :=
  [(lit "!doctype html", []), (lit "html lang='en'", []), (lit "head", []),
    (lit "meta charset='utf-8'", []), (lit "title", lit "Environment Diff"), (lit "/title", []),
    (lit "style", diffStyle), (lit "/style", []), (lit "/head", []), (lit "body", []),
    (lit "h1", lit "Environment diff"), (lit "/h1", []),
    (lit "p", esc diff.aSnapshotId ++ lit " → " ++ esc diff.bSnapshotId), (lit "/p", []),
    (lit "p", esc (diffCountsText diff)), (lit "/p", []), (lit "table", []), (lit "tr", [])] ++
  [lit "Component", lit "Name", lit "Classification", lit "A", lit "B",
    lit "Critical"].flatMap (cellItems "th") ++ [(lit "/tr", [])] ++
  diff.entries.flatMap (entryItems esc) ++
  [(lit "/table", []), (lit "footer", lit "Generated locally by DevRepro Doctor."),
    (lit "/footer", []), (lit "/body", []), (lit "/html", [])]

/-- `render_diff_html`. -/
def renderDiffHtml (gate : PrivacyGate normcase) (assertNoSecrets : Str → Except Exc Unit)
    (diff : EnvironmentDiff) : Except Exc Str := do
  let doc := gate.redact (document (diffItems htmlEscape diff))
  assertNoSecrets doc
  return doc

/-! ## What a reader should find -/

/-- What the tags of a finding depend on. -/
structure FindingShape where
  state : FindingState
  versions : Bool
  hint : Bool

def shapeOf (f : Finding) : FindingShape where
  state := f.state
  versions := given f.detected || given f.required
  hint := given f.remediationHint

/-- The tags of a finding. -/
def findingTags (s : FindingShape) : List Str :=
  [lit "section", lit "span class='badge " ++ s.state.value ++ lit "'", lit "/span", lit "code",
    lit "/code", lit "p", lit "/p"] ++
  (if s.versions then [lit "p", lit "b", lit "/b", lit "b", lit "/b", lit "/p"] else []) ++
  (if s.hint then [lit "p", lit "b", lit "/b", lit "/p"] else []) ++
  [lit "details", lit "summary", lit "/summary", lit "pre", lit "/pre", lit "/details", lit "/section"]

/-- The tags of a report. -/
def reportTags (score : Bool) (shapes : List FindingShape) : List Str :=
  [lit "!doctype html", lit "html lang=\"en\"", lit "head", lit "meta charset=\"utf-8\"",
    lit "meta name=\"viewport\" content=\"width=device-width, initial-scale=1\"", lit "title",
    lit "/title", lit "style", lit "/style", lit "/head", lit "body", lit "h1", lit "small",
    lit "/small", lit "/h1", lit "p", lit "/p", lit "p", lit "/p"] ++
  (if score then [lit "p", lit "b", lit "/b", lit "/p"] else []) ++
  shapes.flatMap findingTags ++ [lit "footer", lit "/footer", lit "/body", lit "/html"]

/-- The tags of a diff with `n` entries. -/
def diffTags (n : Nat) : List Str :=
  [lit "!doctype html", lit "html lang='en'", lit "head", lit "meta charset='utf-8'", lit "title",
    lit "/title", lit "style", lit "/style", lit "/head", lit "body", lit "h1", lit "/h1", lit "p",
    lit "/p", lit "p", lit "/p", lit "table", lit "tr"] ++
  (List.replicate 6 [lit "th", lit "/th"]).flatten ++ [lit "/tr"] ++
  (List.replicate n ([lit "tr"] ++ (List.replicate 6 [lit "td", lit "/td"]).flatten ++
    [lit "/tr"])).flatten ++
  [lit "/table", lit "footer", lit "/footer", lit "/body", lit "/html"]

/-- The character references that `html.escape` writes. -/
def htmlEscapes : Escapes CodePoint where
  mark := codePoint '&'
  table := [(codePoint '&', "amp;"), (codePoint '<', "lt;"), (codePoint '>', "gt;"),
    (codePoint '"', "quot;"), (codePoint '\'', "#x27;")]

/-- The tags that a reader finds in a document, each with the text behind it. -/
def tagsIn (doc : Str) : Markup CodePoint := readMarkup (codePoint '<') (codePoint '>') doc

/-- A document has some tags and no others.  Its texts are the redactions of texts that a reader
reads as the ones that should be seen. -/
structure Faithful (gate : PrivacyGate normcase) (tags : List Str)
    (written seen : Markup CodePoint) (doc : Str) : Prop where
  tags : (tagsIn doc).map Prod.fst = tags
  texts : (tagsIn doc).map Prod.snd = (written.map Prod.snd).map gate.redact
  seen : written.map (fun item => htmlEscapes.unescape item.2) = seen.map Prod.snd

end DevRepro.Reports
