import DevRepro.Python.Escapes
import DevRepro.Reports.HtmlDocuments
import DevRepro.Reports.Xml

/-!
# JUnit reports

`render_junit` of `reports/renderers.py`, with the serializer of `ElementTree`.  The
tags of the document are written with two escapes that are parameters, one for the
values of attributes and one for texts.

`JunitOk` says what a reader of the document relies on: it is a well-formed document,
it has one `testcase` for each finding in order, and its counters are the numbers of
its elements.
-/

namespace DevRepro.Reports

open DevRepro.Python DevRepro.Lib DevRepro.Privacy DevRepro.Snapshots
open DevRepro.Mcp (Finding FindingState Evidence)

/-! ## The serializer -/

/-- `_escape_attrib` of `ElementTree`. -/
def escapeAttrib (s : Str) : Str :=
  replaceText "\t" "&#09;" (replaceText "\n" "&#10;" (replaceText "\r" "&#13;"
    (replaceText "\"" "&quot;" (replaceText ">" "&gt;" (replaceText "<" "&lt;"
      (replaceText "&" "&amp;" s))))))

/-- `_escape_cdata` of `ElementTree`. -/
def escapeCdata (s : Str) : Str :=
  replaceText ">" "&gt;" (replaceText "<" "&lt;" (replaceText "&" "&amp;" s))

/-- The document of some tags, each with the text behind it. -/
def xmlDocument (items : List (XmlTag × Str)) : Str :=
  document (items.map fun item => (rawTag item.1, item.2))

/-! ## The document -/

/-- The element that a state puts into its test case. -/
def childName : FindingState → Option Str
  | .error => some (lit "failure")
  | .blocked => some (lit "failure")
  | .warn => some (lit "skipped")
  | .unknown => some (lit "error")
  | .info => none
  | .pass => none

/-- `f.evidence[0].excerpt or ""`. -/
def firstExcerpt (f : Finding) : Str :=
  match f.evidence with
  | [] => []
  | ev :: _ => ev.excerpt.getD []

section Document

variable (val txt : Str → Str)

/-- The attributes of a test case. -/
def caseAttrs (f : Finding) : List (Str × Str) :=
  [(lit "name", val f.ruleId),
    (lit "classname", val (if given f.component then f.component.getD [] else lit "devrepro"))]

/-- The element inside a test case. -/
def childTags (f : Finding) (child : Str) : List (XmlTag × Str) :=
  if firstExcerpt f = [] then [(.empty child [(lit "message", val f.summary)], [])]
  else [(.start child [(lit "message", val f.summary)], txt (firstExcerpt f)), (.close child, [])]

/-- The test case of a finding. -/
def caseTags (f : Finding) : List (XmlTag × Str) :=
  match childName f.state with
  | none => [(.empty "testcase" (caseAttrs val f), [])]
  | some child =>
    [(.start "testcase" (caseAttrs val f), [])] ++ childTags val txt f child ++
      [(.close "testcase", [])]

/-- How many findings have a state. -/
def stateCount (p : FindingState → Bool) (findings : List Finding) : Nat :=
  findings.countP fun f => p f.state

/-- The attributes of the suite. -/
def suiteAttrs (report : ScanReport) : List (Str × Str) :=
  [(lit "name", val "devrepro-doctor"), (lit "timestamp", val report.createdAt),
    (lit "tests", val (natStr report.findings.length)),
    (lit "failures", val (natStr (stateCount (fun s => s = .error || s = .blocked) report.findings))),
    (lit "errors", val "0"),
    (lit "warnings", val (natStr (stateCount (fun s => s = .warn) report.findings)))]

/-- The tags of the document. -/
def junitTags (report : ScanReport) : List (XmlTag × Str) :=
  [(.declaration, lit "\n")] ++
    if report.findings = [] then [(.empty "testsuite" (suiteAttrs val report), [])]
    else
      [(.start "testsuite" (suiteAttrs val report), [])] ++
        report.findings.flatMap (caseTags val txt) ++ [(.close "testsuite", [])]

end Document

variable {normcase : Str → Str}

/-- `render_junit`, with `assert_no_secrets` as a parameter. -/
def renderJunit (gate : PrivacyGate normcase) (assertNoSecrets : Str → Except Exc Unit)
    (report : ScanReport) : Except Exc Str := do
  if report.findings.any fun f => (childName f.state).isSome && f.evidence.isEmpty then
    throw ⟨.other "IndexError", "tuple index out of range"⟩
  let out := gate.redact (xmlDocument (junitTags escapeAttrib escapeCdata report))
  assertNoSecrets out
  return out

/-! ## What a reader relies on -/

/-- The document is well formed, has one test case for each finding in order, and counts its
elements. -/
def JunitOk (gate : PrivacyGate normcase) (report : ScanReport) (doc : Str) : Prop :=
  ∃ tags, readXml doc = some tags ∧
    (elements "testcase" tags).map (attr? "name") =
      report.findings.map (fun f => some (gate.redact (escapeAttrib f.ruleId))) ∧
    ∃ suite, elements "testsuite" tags = [suite] ∧
      attr? "tests" suite = some (natStr (elements "testcase" tags).length) ∧
      attr? "failures" suite = some (natStr (elements "failure" tags).length) ∧
      attr? "errors" suite = some (natStr (elements "error" tags).length)

/-- The parts of a tag that are no values of attributes, cut at the quotation marks. -/
def fixedPieces : Str → List (Str × Str) → Str → List Str
  | before, [], behind => [before ++ behind]
  | before, a :: attrs, behind => (before ++ (lit " " ++ (a.1 ++ lit "="))) :: fixedPieces [] attrs behind

def tagPieces : XmlTag → List Str
  | .declaration => [xmlDeclaration]
  | .start name attrs => fixedPieces name attrs []
  | .empty name attrs => fixedPieces name attrs " /"
  | .close name => [lit "/" ++ name]

/-- The values of the attributes of a tag. -/
def tagValues : XmlTag → List Str
  | .start _ attrs => attrs.map Prod.snd
  | .empty _ attrs => attrs.map Prod.snd
  | _ => []

/-- The redaction leaves the markup of some tags as it is, and finds no more than the home path in
the values and the texts. -/
structure MarkupKept (gate : PrivacyGate normcase) (items : List (XmlTag × Str)) : Prop where
  pieces : ∀ item ∈ items, ∀ piece ∈ tagPieces item.1, gate.redact piece = piece
  values : ∀ item ∈ items, ∀ value ∈ tagValues item.1, Impersonal gate value
  texts : ∀ item ∈ items, Impersonal gate item.2

/-- Every character that is written is one of XML. -/
def LegalChars (items : List (XmlTag × Str)) : Prop :=
  ∀ item ∈ items, (rawTag item.1).all isXmlChar = true ∧ item.2.all isXmlChar = true

/-- A machine whose paths are absolute, and whose paths and account name have no character of
markup and none that XML does not know. -/
structure PlainMachine (gate : PrivacyGate normcase) : Prop where
  absolute : ∀ v ∈ gate.homeVariants, codePoint '/' ∈ v ∨ codePoint '\\' ∈ v
  variants : ∀ v ∈ gate.homeVariants, ∀ c ∈ v, c ∉ lit "<>&;\"" ∧ isXmlChar c = true
  username : ∀ c ∈ gate.username, c ∉ lit "<>&;\"" ∧ isXmlChar c = true

end DevRepro.Reports
