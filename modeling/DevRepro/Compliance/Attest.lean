import DevRepro.Compliance.Agreement
import DevRepro.Lib.Dict
import DevRepro.Reports.Sarif
import DevRepro.Python.SortedKeys
import DevRepro.Python.Surrogates
import DevRepro.Snapshots.ChainAppend

/-!
# Attestations

`compliance/attest.py` and the command `attest`: the statement about a file, in its three kinds,
and the file that it is written to.  The hex digest of `hashlib` and `str.lower` are parameters.

Who holds the file of a statement can check the file it is about (`attest_verifies`), and who holds
the pair of a reproduction and its environment can check both (`attest_chain`).  The counts of an
environment statement are those of the scan, and the verdict of `preflight` can be computed from
them (`attest_verdict`).
-/

namespace DevRepro.Compliance

open DevRepro.Python DevRepro.Lib DevRepro.Snapshots
open DevRepro.Mcp (Finding FindingState exitFor optStr strs)

/-! ## Subjects -/

structure Subject where
  name : Str
  digest : Str

def digestKey : Str := "sha256"

def Subject.asDict (s : Subject) : Json :=
  .obj [("name", .str s.name), ("digest", .obj [(digestKey, .str s.digest)])]

section

variable (sha256 : ByteArray → Str)

/-- `subject_for_bytes`, and `subject_for_file` with the name of the file. -/
def subjectForBytes (name : Str) (data : ByteArray) : Subject := ⟨name, sha256 data⟩

/-- `verify_subject` -/
def verifySubject (subject : List (Str × Json)) (data : ByteArray) : Except Exc Bool :=
  match dictGet? subject "digest" with
  | none => .ok false
  | some (.obj digests) =>
    match dictGet? digests digestKey with
    | some (.str expected) => .ok (expected ≠ [] && sha256 data = expected)
    | _ => .ok false
  | some digests =>
    if digests.truthy then
      .error ⟨.attributeError, lit "'" ++ digests.typeName ++ lit "' object has no attribute 'get'"⟩
    else .ok false

end

/-! ## Statements -/

/-- A key that is there if its value is not empty. -/
def optionalItem (key : Str) : Option Str → List (Str × Json)
  | none => []
  | some [] => []
  | some value => [(key, .str value)]

def AttestedTool.asDict (tool : AttestedTool) : Json :=
  .obj (("name", .str tool.name) :: ("version", optStr tool.version) ::
    (optionalItem "purl" tool.purl ++ optionalItem "installSource" tool.installSource))

/-- The states of the findings, as texts. -/
def stateTexts (report : ScanReport) : List Str := report.findings.map fun f => f.state.value

/-- `_verdict_counts` -/
def verdictCounts (report : ScanReport) : List (Str × Json) :=
  sortByKey ((tally (stateTexts report)).items.map fun item => (item.1, .int item.2))

def scoreItems (report : ScanReport) : List (Str × Json) :=
  match report.score with
  | none => []
  | some score =>
    [("reproducibilityScore", .obj [("earned", .int score.total), ("possible", .int score.possible)])]

def statement (subject : Subject) (predicateType : Str) (predicate : Json) : Json :=
  .obj [("_type", .str "https://in-toto.io/Statement/v1"), ("subject", .arr [subject.asDict]),
    ("predicateType", .str predicateType), ("predicate", predicate)]

/-- The predicate of an environment. -/
def environmentPredicate (lower : Str → Str) (report : ScanReport) : List (Str × Json) :=
  ("builder", .obj [("id", .str "https://github.com/webdevsamran/devrepro-doctor")]) ::
  ("devreproVersion", .str report.devreproVersion) :: ("scannedAt", .str report.createdAt) ::
  ("platform", .obj [("os", .str report.platform.osName), ("version", .str report.platform.osVersion),
    ("arch", .str report.platform.arch), ("wsl", .bool report.platform.isWsl)]) ::
  ("toolchain", .arr ((toolEntries lower report).map AttestedTool.asDict)) ::
  ("findings", .obj (verdictCounts report)) :: ("policyApplied", .bool report.policyApplied) ::
  scoreItems report

/-- `build_environment_statement` -/
def buildEnvironmentStatement (lower : Str → Str) (report : ScanReport) (subject : Subject) : Json :=
  statement subject "https://devrepro.dev/attestation/environment/v1"
    (.obj (environmentPredicate lower report))

/-- The predicate of a reproduction. -/
def reproductionPredicate (report : ScanReport) (environmentDigest : Str) (reproduced : Bool)
    (steps : List Str) : List (Str × Json) :=
  [("environmentDigest", .obj [(digestKey, .str environmentDigest)]), ("reproduced", .bool reproduced),
    ("reproducedAt", .str report.createdAt),
    ("platform", .obj [("os", .str report.platform.osName), ("arch", .str report.platform.arch)]),
    ("steps", strs steps)]

/-- `build_reproduction_statement` -/
def buildReproductionStatement (report : ScanReport) (subject : Subject) (environmentDigest : Str)
    (reproduced : Bool) (steps : List Str) : Json :=
  statement subject "https://devrepro.dev/attestation/reproduction/v1"
    (.obj (reproductionPredicate report environmentDigest reproduced steps))

/-- The predicate of a provenance. -/
def provenancePredicate (builderId startedAt : Str) (externalParameters : List (Str × Json)) :
    List (Str × Json) :=
  [("buildDefinition", .obj [("buildType", .str "https://devrepro.dev/buildtype/reproduction/v1"),
      ("externalParameters", .obj externalParameters), ("resolvedDependencies", .arr [])]),
    ("runDetails", .obj [("builder", .obj [("id", .str builderId)]),
      ("metadata", .obj [("startedOn", .str startedAt)])])]

/-- `build_slsa_provenance`, without a time of the end and without dependencies. -/
def buildSlsaProvenance (subject : Subject) (builderId startedAt : Str)
    (externalParameters : List (Str × Json)) : Json :=
  statement subject "https://slsa.dev/provenance/v1"
    (.obj (provenancePredicate builderId startedAt externalParameters))

/-! ## The command -/

inductive AttestFailure where
  | usage
  | raised (e : Exc)

/-- What `attest` is asked for. -/
structure AttestOptions where
  kind : Str
  environmentDigest : Option Str

section

variable (sha256 : ByteArray → Str) (lower : Str → Str)

/-- The statement of `attest` about a file. -/
def attest (options : AttestOptions) (report : ScanReport) (name : Str) (data : ByteArray) :
    Except AttestFailure Json :=
  let digest := options.environmentDigest.getD []
  let subject := subjectForBytes sha256 name data
  if options.kind = lit "environment" then .ok (buildEnvironmentStatement lower report subject)
  else if options.kind = lit "reproduction" then
    if digest = [] then .error .usage
    else .ok (buildReproductionStatement report subject digest true [])
  else if options.kind = lit "provenance" then
    .ok (buildSlsaProvenance subject (lit "devrepro/" ++ report.devreproVersion) report.createdAt
      [("subject", .str name)])
  else .error .usage

/-- `render_statement` -/
def renderStatement (rt : Runtime) (document : Json) : Except Exc Str := do
  return (← dumps rt (.indented 2) document) ++ [codePoint '\n']

/-- The file that `attest -o` writes. -/
def attestFile (rt : Runtime) (options : AttestOptions) (report : ScanReport) (name : Str)
    (data : ByteArray) : Except AttestFailure ByteArray := do
  let document ← attest sha256 lower options report name data
  let text ← (renderStatement rt document).mapError .raised
  (encodeUtf8 text).elim (.error (.raised unicodeEncodeError)) .ok

end

/-- `json.loads` of the text of a file. -/
def readDocument (rt : Runtime) (bytes : ByteArray) : Option Json :=
  (readText bytes).bind fun text =>
    match loads rt.limits text with
    | .ok document => some document
    | .error _ => none

/-! ## What is written is read back -/

variable {sha256 : ByteArray → Str} {lower : Str → Str} {rt : Runtime} {report : ScanReport}

/-- An object by the list of its keys. -/
theorem plain_obj {l : Limits} {level : Nat} {fields : List (Str × Json)} (keys : List Str)
    (hkeys : fields.map Prod.fst = keys) (hroom : level < l.depth) (hnodup : keys.Nodup)
    (hprintable : ∀ key ∈ keys, PrintableText key) (each : ∀ item ∈ fields, Plain l (level + 1) item.2) :
    Plain l level (.obj fields) :=
  .obj level fields hroom (hkeys ▸ hnodup) (hkeys ▸ hprintable) each

theorem plain_single {l : Limits} {level : Nat} {key : Str} {value : Json} (hkey : PrintableText key)
    (hroom : level < l.depth) (h : Plain l (level + 1) value) : Plain l level (.obj [(key, value)]) :=
  plain_obj [key] rfl hroom (List.nodup_singleton key) (by simpa using hkey) (by simpa using h)

theorem plain_subject {l : Limits} {level : Nat} (hl : level + 1 < l.depth) (s : Subject) :
    Plain l level s.asDict := by
  refine plain_obj ["name", "digest"] rfl (by omega) (by decide) (by decide) ?_
  simp only [List.forall_mem_cons]
  exact ⟨.str _ _, plain_single (by decide) hl (.str _ _), by simp⟩

theorem plain_statement {l : Limits} (hl : 16 ≤ l.depth) (subject : Subject) (predicateType : Str)
    {predicate : Json} (h : Plain l 1 predicate) : Plain l 0 (statement subject predicateType predicate) := by
  refine plain_obj ["_type", "subject", "predicateType", "predicate"] rfl (by omega) (by decide) (by decide) ?_
  simp only [List.forall_mem_cons]
  refine ⟨.str _ _, .arr _ _ (by omega) ?_, .str _ _, h, by simp⟩
  simp only [List.forall_mem_cons]
  exact ⟨plain_subject (by omega) subject, by simp⟩

theorem plain_optStr {l : Limits} {level : Nat} (value : Option Str) : Plain l level (optStr value) := by
  cases value with
  | none => exact .null _
  | some value => exact .str _ _

theorem optionalItem_sublist (key : Str) (value : Option Str) :
    ((optionalItem key value).map Prod.fst).Sublist [key] := by
  rcases value with _ | _ | ⟨c, rest⟩
  · exact List.nil_sublist _
  · exact List.nil_sublist _
  · exact List.Sublist.refl _

theorem plain_optionalItem {l : Limits} {level : Nat} (key : Str) (value : Option Str) :
    ∀ item ∈ optionalItem key value, Plain l level item.2 := by
  rcases value with _ | _ | ⟨c, rest⟩
  · simp [optionalItem]
  · simp [optionalItem]
  · simpa [optionalItem] using .str _ _

theorem plain_tool {l : Limits} {level : Nat} (hl : level < l.depth) (tool : AttestedTool) :
    Plain l level tool.asDict := by
  have hkeys : List.Sublist ((("name", .str tool.name) :: ("version", optStr tool.version) ::
      (optionalItem "purl" tool.purl ++ optionalItem "installSource" tool.installSource) :
        List (Str × Json)).map Prod.fst) ["name", "version", "purl", "installSource"] := by
    rw [List.map_cons, List.map_cons, List.map_append]
    exact (((optionalItem_sublist _ _).append (optionalItem_sublist _ _)).cons_cons _).cons_cons _
  refine .obj _ _ hl (hkeys.nodup (by decide)) (fun key hkey => ?_) ?_
  · have hall : ∀ key ∈ (["name", "version", "purl", "installSource"] : List Str), PrintableText key := by decide
    exact hall key (hkeys.subset hkey)
  · rw [List.forall_mem_cons, List.forall_mem_cons, List.forall_mem_append]
    exact ⟨.str _ _, plain_optStr _, plain_optionalItem _ _, plain_optionalItem _ _⟩

/-- The counts, before they are sorted. -/
theorem verdictCounts_perm (report : ScanReport) : (verdictCounts report).Perm
    ((tally (stateTexts report)).items.map fun item => (item.1, .int item.2)) := sortByKey_perm _

theorem mem_verdictCounts {item : Str × Json} : item ∈ verdictCounts report ↔
    item.1 ∈ stateTexts report ∧ item.2 = .int (places item.1 (stateTexts report)) := by
  rw [(verdictCounts_perm report).mem_iff, List.mem_map]
  constructor
  · rintro ⟨count, hcount, rfl⟩
    obtain ⟨hmem, hplaces⟩ := mem_tally.mp hcount
    exact ⟨hmem, by rw [hplaces]⟩
  · rintro ⟨hmem, hvalue⟩
    exact ⟨(item.1, places item.1 (stateTexts report)), mem_tally.mpr ⟨hmem, rfl⟩, by rw [← hvalue]⟩

theorem verdictCounts_nodup (report : ScanReport) : ((verdictCounts report).map Prod.fst).Nodup := by
  refine sortByKey_nodup ?_
  rw [List.map_map]
  exact (tally (stateTexts report)).nodup

theorem plain_counts {l : Limits} {level : Nat} (hl : level < l.depth) (report : ScanReport) :
    Plain l level (.obj (verdictCounts report)) := by
  refine .obj _ _ hl (verdictCounts_nodup report) ?_ ?_
  · intro key hkey
    obtain ⟨item, hitem, rfl⟩ := List.mem_map.mp hkey
    obtain ⟨f, -, hf⟩ := List.mem_map.mp (mem_verdictCounts.mp hitem).1
    rw [← hf]
    cases f.state <;> decide
  · intro item hitem
    rw [(mem_verdictCounts.mp hitem).2]
    exact .int _ _

theorem plain_environmentPredicate {l : Limits} (hl : 16 ≤ l.depth) (lower : Str → Str) (report : ScanReport) :
    Plain l 1 (.obj (environmentPredicate lower report)) := by
  have hbuilder : Plain l 2 (.obj [("id", .str "https://github.com/webdevsamran/devrepro-doctor")]) :=
    plain_single (by decide) (by omega) (.str _ _)
  have hplatform : Plain l 2 (.obj [("os", .str report.platform.osName), ("version", .str report.platform.osVersion),
      ("arch", .str report.platform.arch), ("wsl", .bool report.platform.isWsl)]) := by
    refine plain_obj ["os", "version", "arch", "wsl"] rfl (by omega) (by decide) (by decide) ?_
    simp only [List.forall_mem_cons]
    exact ⟨.str _ _, .str _ _, .str _ _, .bool _ _, by simp⟩
  have htools : Plain l 2 (.arr ((toolEntries lower report).map AttestedTool.asDict)) := by
    refine .arr _ _ (by omega) fun v hv => ?_
    obtain ⟨tool, -, rfl⟩ := List.mem_map.mp hv
    exact plain_tool (by omega) tool
  have hcounts : Plain l 2 (.obj (verdictCounts report)) := plain_counts (by omega) report
  rw [environmentPredicate, scoreItems]
  cases report.score with
  | none =>
    refine plain_obj ["builder", "devreproVersion", "scannedAt", "platform", "toolchain", "findings",
      "policyApplied"] rfl (by omega) (by decide) (by decide) ?_
    simp only [List.forall_mem_cons]
    exact ⟨hbuilder, .str _ _, .str _ _, hplatform, htools, hcounts, .bool _ _, by simp⟩
  | some score =>
    have hscore : Plain l 2 (.obj [("earned", .int score.total), ("possible", .int score.possible)]) := by
      refine plain_obj ["earned", "possible"] rfl (by omega) (by decide) (by decide) ?_
      simp only [List.forall_mem_cons]
      exact ⟨.int _ _, .int _ _, by simp⟩
    refine plain_obj ["builder", "devreproVersion", "scannedAt", "platform", "toolchain", "findings",
      "policyApplied", "reproducibilityScore"] rfl (by omega) (by decide) (by decide) ?_
    simp only [List.forall_mem_cons]
    exact ⟨hbuilder, .str _ _, .str _ _, hplatform, htools, hcounts, .bool _ _, hscore, by simp⟩

theorem plain_reproductionPredicate {l : Limits} (hl : 16 ≤ l.depth) (report : ScanReport) (digest : Str)
    (reproduced : Bool) (steps : List Str) :
    Plain l 1 (.obj (reproductionPredicate report digest reproduced steps)) := by
  rw [reproductionPredicate]
  refine plain_obj ["environmentDigest", "reproduced", "reproducedAt", "platform", "steps"] rfl (by omega)
    (by decide) (by decide) ?_
  simp only [List.forall_mem_cons]
  refine ⟨plain_single (by decide) (by omega) (.str _ _), .bool _ _, .str _ _,
    plain_obj ["os", "arch"] rfl (by omega) (by decide) (by decide) ?_, .arr _ _ (by omega) ?_, by simp⟩
  · simp only [List.forall_mem_cons]
    exact ⟨.str _ _, .str _ _, by simp⟩
  · intro v hv
    obtain ⟨step, -, rfl⟩ := List.mem_map.mp hv
    exact .str _ _

theorem plain_provenancePredicate {l : Limits} (hl : 16 ≤ l.depth) (builderId startedAt name : Str) :
    Plain l 1 (.obj (provenancePredicate builderId startedAt [("subject", .str name)])) := by
  rw [provenancePredicate]
  refine plain_obj ["buildDefinition", "runDetails"] rfl (by omega) (by decide) (by decide) ?_
  simp only [List.forall_mem_cons]
  refine ⟨plain_obj ["buildType", "externalParameters", "resolvedDependencies"] rfl (by omega) (by decide)
    (by decide) ?_, plain_obj ["builder", "metadata"] rfl (by omega) (by decide) (by decide) ?_, by simp⟩
  · simp only [List.forall_mem_cons]
    exact ⟨.str _ _, plain_single (by decide) (by omega) (.str _ _), .arr _ _ (by omega) (by simp), by simp⟩
  · simp only [List.forall_mem_cons]
    exact ⟨plain_single (by decide) (by omega) (.str _ _), plain_single (by decide) (by omega) (.str _ _),
      by simp⟩

/-- A statement names its file, whatever its kind. -/
theorem attest_eq_ok {options : AttestOptions} {name : Str} {data : ByteArray} {document : Json}
    (h : attest sha256 lower options report name data = .ok document) :
    ∃ predicateType predicate,
      document = statement (subjectForBytes sha256 name data) predicateType (.obj predicate) ∧
        Plain rt.limits 1 (.obj predicate) := by
  unfold attest at h
  simp only at h
  split_ifs at h
  · obtain rfl := Except.ok.inj h
    exact ⟨_, _, rfl, plain_environmentPredicate rt.depth_ge lower report⟩
  · obtain rfl := Except.ok.inj h
    exact ⟨_, _, rfl, plain_reproductionPredicate rt.depth_ge report _ _ _⟩
  · obtain rfl := Except.ok.inj h
    exact ⟨_, _, rfl, plain_provenancePredicate rt.depth_ge _ _ _⟩

/-- A text and a newline behind it. -/
theorem loads_dumpText_newline {style : DumpStyle} {l : Limits} {v : Json} (h : Readable l 0 v) :
    loads l (dumpText rt style 0 v ++ [codePoint '\n']) = .ok v := by
  obtain ⟨st, hrun, hended⟩ := Scan.reads_of_readable rt style h [] rfl false
  have hblank : Scan.Blank [codePoint '\n'] := fun c hc => by
    rw [List.mem_singleton.mp hc]
    decide
  obtain ⟨st', hrest, hended'⟩ := hended.run_blank hblank
  exact loads_of_run (by rw [Scan.run_append_ok hrun, hrest]) hended'.finish_eq

theorem dumpText_newline_char (rt : Runtime) (style : DumpStyle) (v : Json) :
    ∀ c ∈ dumpText rt style 0 v ++ [codePoint '\n'], c ≠ codePoint '\r' ∧ isSurrogate c = false := by
  have hdump : ∀ c ∈ dumpText rt style 0 v ++ [codePoint '\n'], isDumpChar c = true := by
    intro c hc
    rcases List.mem_append.mp hc with hc | hc
    · exact dumpText_isDumpChar rt _ _ 0 c hc
    · rw [List.mem_singleton.mp hc]
      decide
  intro c hc
  have hchar := hdump c hc
  rw [isDumpChar, Bool.or_eq_true, beq_iff_eq] at hchar
  rcases hchar with hprintable | rfl
  · exact ⟨fun heq => absurd (heq ▸ hprintable) (by decide), isSurrogate_of_isPrintableAscii hprintable⟩
  · exact ⟨by decide, by decide⟩

/-- The bytes of a document are read as the document with its strings joined. -/
theorem readDocument_written {document : Json} {bytes : ByteArray} (hplain : Plain rt.limits 0 document)
    (h : (do
      let text ← (renderStatement rt document).mapError AttestFailure.raised
      (encodeUtf8 text).elim (.error (.raised unicodeEncodeError)) .ok) = Except.ok bytes) :
    readDocument rt bytes = some (joinedValue document) := by
  obtain ⟨text, htext, h⟩ := bind_eq_ok.mp h
  rw [renderStatement] at htext
  cases hdump : dumps rt (.indented 2) document with
  | error e =>
    rw [hdump] at htext
    cases htext
  | ok dumped =>
    rw [hdump] at htext
    obtain rfl : dumped ++ [codePoint '\n'] = text := Except.ok.inj htext
    obtain ⟨herror, rfl⟩ : _ ∧ dumped = dumpText rt (.indented 2) 0 document := dumps_ok hdump
    have hchars := dumpText_newline_char rt (.indented 2) document
    obtain ⟨found, hencode⟩ := encodeUtf8_isSome fun c hc => (hchars c hc).2
    rw [hencode] at h
    obtain rfl : found = bytes := Except.ok.inj h
    have hread : readText found = some (dumpText rt (.indented 2) 0 document ++ [codePoint '\n']) :=
      readText_encode hencode fun hmem => (hchars _ hmem).1 rfl
    rw [readDocument, hread, Option.bind_some, ← dumpText_joinedValue,
      loads_dumpText_newline (hplain.readable herror)]

theorem readDocument_attestFile {options : AttestOptions} {name : Str} {data bytes : ByteArray}
    (h : attestFile sha256 lower rt options report name data = .ok bytes) :
    ∃ predicateType predicate, attest sha256 lower options report name data =
        .ok (statement (subjectForBytes sha256 name data) predicateType (.obj predicate)) ∧
      readDocument rt bytes = some (joinedValue
        (statement (subjectForBytes sha256 name data) predicateType (.obj predicate))) := by
  rw [attestFile] at h
  obtain ⟨document, hdocument, h⟩ := bind_eq_ok.mp h
  obtain ⟨predicateType, predicate, rfl, hplain⟩ := @attest_eq_ok _ _ rt _ _ _ _ _ hdocument
  refine ⟨predicateType, predicate, hdocument, ?_⟩
  exact readDocument_written (plain_statement rt.depth_ge _ _ hplain) h

/-! ## The subject -/

/-- A hex digest is there and plain. -/
def HexDigest (sha256 : ByteArray → Str) : Prop := ∀ data, sha256 data ≠ [] ∧ PrintableText (sha256 data)

theorem verifySubject_digest (hhex : HexDigest sha256) {subject : List (Str × Json)} {data : ByteArray}
    (h : dictGet? subject "digest" = some (.obj [(digestKey, .str (sha256 data))])) (other : ByteArray) :
    verifySubject sha256 subject other = .ok (decide (sha256 other = sha256 data)) := by
  have hdigest : dictGet? [(digestKey, Json.str (sha256 data))] digestKey = some (.str (sha256 data)) := rfl
  rw [verifySubject, h]
  simp [hdigest, (hhex data).1]

theorem joinedValue_digest (hhex : HexDigest sha256) (data : ByteArray) :
    joinedValue (.obj [(digestKey, .str (sha256 data))]) = .obj [(digestKey, .str (sha256 data))] := by
  rw [joinedValue, joinedItems, joinedItems, joinedValue, joined_of_wellPaired (hhex data).2.wellPaired]

/-- A document is read from its bytes, and names one subject. -/
def ReadsSubject (rt : Runtime) (bytes : ByteArray) (document subject : List (Str × Json)) : Prop :=
  readDocument rt bytes = some (.obj document) ∧ dictGet? document "subject" = some (.arr [.obj subject])

theorem ReadsSubject.unique {bytes : ByteArray} {document document' subject subject' : List (Str × Json)}
    (h : ReadsSubject rt bytes document subject) (h' : ReadsSubject rt bytes document' subject') :
    document' = document ∧ subject' = subject := by
  have hdocument : document' = document := by simpa using h'.1.symm.trans h.1
  have hsubject := h'.2
  rw [hdocument, h.2] at hsubject
  exact ⟨hdocument, by simpa using hsubject.symm⟩

/-- What is read from the file of a statement. -/
theorem attest_read (hhex : HexDigest sha256) {options : AttestOptions} {name : Str}
    {data bytes : ByteArray} (h : attestFile sha256 lower rt options report name data = .ok bytes) :
    ∃ predicateType predicate document subject, attest sha256 lower options report name data =
        .ok (statement (subjectForBytes sha256 name data) predicateType (.obj predicate)) ∧
      ReadsSubject rt bytes document subject ∧
      dictGet? document "predicate" = some (.obj (joinedItems predicate)) ∧
      ∀ other, verifySubject sha256 subject other = .ok (decide (sha256 other = sha256 data)) := by
  obtain ⟨predicateType, predicate, hattest, hread⟩ := readDocument_attestFile h
  rw [statement, joinedValue] at hread
  refine ⟨predicateType, predicate, _, joinedItems [("name", .str name), ("digest",
    .obj [(digestKey, .str (sha256 data))])], hattest, ⟨hread, ?_⟩, ?_, verifySubject_digest hhex ?_⟩
  · rw [dictGet?_joinedItems]
    rfl
  · rw [dictGet?_joinedItems]
    rfl
  · rw [dictGet?_joinedItems]
    exact congrArg some (joinedValue_digest hhex data)

/-- Who reads the statement and has a file can tell by the digest whether it is the file that the
statement is about. -/
theorem attest_verifies (hhex : HexDigest sha256) {options : AttestOptions} {name : Str}
    {data bytes : ByteArray} (h : attestFile sha256 lower rt options report name data = .ok bytes) :
    ∃ document subject, ReadsSubject rt bytes document subject ∧
      ∀ other, verifySubject sha256 subject other = .ok (decide (sha256 other = sha256 data)) := by
  obtain ⟨-, -, document, subject, -, hreads, -, hverify⟩ := attest_read hhex h
  exact ⟨document, subject, hreads, hverify⟩

/-- The digest of an empty file. -/
def emptyDigest : Str := "e3b0c44298fc1c149afbf4c8996fb92427ae41e4649b934ca495991b7852b855"

theorem emptyDigest_plain : emptyDigest ≠ [] ∧ PrintableText emptyDigest := ⟨by decide, by decide⟩

theorem emptyDigest_hex : HexDigest fun _ => emptyDigest := fun _ => emptyDigest_plain

theorem attestFile_of_no_error {options : AttestOptions} {name : Str} {data : ByteArray} {document : Json}
    (hattest : attest sha256 lower options report name data = .ok document)
    (herror : dumpError rt (.indented 2) 0 document = none) :
    ∃ bytes, attestFile sha256 lower rt options report name data = .ok bytes := by
  obtain ⟨bytes, hencode⟩ :=
    encodeUtf8_isSome fun c hc => (dumpText_newline_char rt (.indented 2) document c hc).2
  have hrender : renderStatement rt document = .ok (dumpText rt (.indented 2) 0 document ++ [codePoint '\n']) := by
    rw [renderStatement, dumps_of_no_error herror]
    rfl
  refine ⟨bytes, ?_⟩
  rw [attestFile, hattest]
  show ((renderStatement rt document).mapError _).bind _ = _
  rw [hrender]
  show (encodeUtf8 _).elim _ _ = _
  rw [hencode]
  rfl

theorem attestFile_environment : ∃ bytes, attestFile (fun _ => emptyDigest) id .standard
    ⟨"environment", none⟩ Reports.unknownReport "snapshot.json" ByteArray.empty = .ok bytes :=
  attestFile_of_no_error rfl (by decide +kernel)

theorem attest_verifies_empty : ∃ bytes document subject, attestFile (fun _ => emptyDigest) id .standard
      ⟨"environment", none⟩ Reports.unknownReport "snapshot.json" ByteArray.empty = .ok bytes ∧
    ReadsSubject .standard bytes document subject ∧
    verifySubject (fun _ => emptyDigest) subject ByteArray.empty = .ok true := by
  obtain ⟨bytes, hbytes⟩ := attestFile_environment
  obtain ⟨document, subject, hreads, hverify⟩ := attest_verifies emptyDigest_hex hbytes
  exact ⟨bytes, document, subject, hbytes, hreads, hverify _⟩

/-! ## The chain -/

/-- The checks of who holds a reproduction statement, an artefact, an environment statement and the
snapshot that this one is about. -/
def ChainChecks (sha256 : ByteArray → Str) (rt : Runtime)
    (reproduction artefact environment snapshot : ByteArray) : Prop :=
  ∃ document subject predicate digest, ReadsSubject rt reproduction document subject ∧
    dictGet? document "predicate" = some (.obj predicate) ∧
    dictGet? predicate "environmentDigest" = some (.obj digest) ∧
    verifySubject sha256 subject artefact = .ok true ∧
    verifySubject sha256 [("digest", .obj digest)] environment = .ok true ∧
    ∃ document' subject', ReadsSubject rt environment document' subject' ∧
      verifySubject sha256 subject' snapshot = .ok true

theorem reproduction_attest {digest : Str} {name : Str} {data : ByteArray} {predicateType : Str}
    {predicate : List (Str × Json)} {subject : Subject}
    (h : attest sha256 lower ⟨"reproduction", some digest⟩ report name data =
      .ok (statement subject predicateType (.obj predicate))) :
    predicate = reproductionPredicate report digest true [] := by
  unfold attest at h
  simp only [Option.getD_some] at h
  have hkind : lit "reproduction" ≠ lit "environment" := by decide
  rw [if_neg hkind, if_pos trivial] at h
  split_ifs at h
  have hstatement := Except.ok.inj h
  simp only [buildReproductionStatement, statement, Json.obj.injEq, List.cons.injEq, Prod.mk.injEq,
    and_true, true_and] at hstatement
  exact hstatement.2.2.symm

/-- The chain of a reproduction holds for its artefact, the environment statement that it names and
the snapshot behind that, and for nothing else as far as the digests tell. -/
theorem attest_chain_iff (hhex : HexDigest sha256) {environmentDigest : Option Str} {report' : ScanReport}
    {name name' : Str} {snapshot environment artefact reproduction : ByteArray}
    (henvironment : attestFile sha256 lower rt ⟨"environment", environmentDigest⟩ report name snapshot =
      .ok environment)
    (hreproduction : attestFile sha256 lower rt ⟨"reproduction", some (sha256 environment)⟩ report' name'
      artefact = .ok reproduction)
    (hcollision : ∀ other, sha256 other = sha256 environment → other = environment)
    (artefact' environment' snapshot' : ByteArray) :
    ChainChecks sha256 rt reproduction artefact' environment' snapshot' ↔
      sha256 artefact' = sha256 artefact ∧ environment' = environment ∧ sha256 snapshot' = sha256 snapshot := by
  obtain ⟨predicateType, predicate, document, subject, hattest, hreads, hpredicate, hverify⟩ :=
    attest_read hhex hreproduction
  obtain ⟨-, -, document', subject', -, hreads', -, hverify'⟩ := attest_read hhex henvironment
  obtain rfl := reproduction_attest hattest
  have hdigest : dictGet? (joinedItems (reproductionPredicate report' (sha256 environment) true []))
      "environmentDigest" = some (.obj [(digestKey, .str (sha256 environment))]) := by
    rw [dictGet?_joinedItems]
    exact congrArg some (joinedValue_digest hhex environment)
  have hpair : ∀ other, verifySubject sha256 [("digest", .obj [(digestKey, .str (sha256 environment))])] other =
      .ok (decide (sha256 other = sha256 environment)) := verifySubject_digest hhex rfl
  constructor
  · rintro ⟨read, readSubject, readPredicate, digest, hread, hreadPredicate, hreadDigest, hartefact, henv,
      read', readSubject', hread', hsnapshot⟩
    obtain ⟨rfl, rfl⟩ := hreads.unique hread
    rw [hpredicate, Option.some.injEq, Json.obj.injEq] at hreadPredicate
    obtain rfl := hreadPredicate
    rw [hdigest, Option.some.injEq, Json.obj.injEq] at hreadDigest
    obtain rfl := hreadDigest
    rw [hverify] at hartefact
    rw [hpair] at henv
    obtain rfl := hcollision environment' (by simpa using henv)
    obtain ⟨rfl, rfl⟩ := hreads'.unique hread'
    rw [hverify'] at hsnapshot
    exact ⟨by simpa using hartefact, rfl, by simpa using hsnapshot⟩
  · rintro ⟨hartefact, rfl, hsnapshot⟩
    exact ⟨document, subject, _, _, hreads, hpredicate, hdigest, by rw [hverify, hartefact, decide_eq_true rfl],
      by rw [hpair, decide_eq_true rfl], document', subject', hreads',
      by rw [hverify', hsnapshot, decide_eq_true rfl]⟩

/-- The digest of the three bytes of `abc`. -/
def otherDigest : Str := "ba7816bf8f01cfea414140de5dae2223b00361a396177a9cb410ff61f20015ad"

/-- A digest that tells one file from all others. -/
def digestOf (marked data : ByteArray) : Str := if data = marked then otherDigest else emptyDigest

theorem digestOf_hex (marked : ByteArray) : HexDigest (digestOf marked) := by
  intro data
  rw [digestOf]
  split_ifs
  · exact ⟨by decide, by decide⟩
  · exact emptyDigest_plain

theorem digestOf_injective {marked other : ByteArray} (h : digestOf marked other = digestOf marked marked) :
    other = marked := by
  by_contra hother
  rw [digestOf, digestOf, if_neg hother, if_pos rfl] at h
  exact absurd h (by decide)

/-- A file without bytes is no document. -/
theorem readDocument_empty : readDocument .standard ByteArray.empty = none := by decide +kernel

/-- A statement knows the digest of its own file only. -/
theorem attestFile_congr {sha256 sha256' : ByteArray → Str} {data : ByteArray} (h : sha256 data = sha256' data)
    (options : AttestOptions) (name : Str) :
    attestFile sha256 lower rt options report name data = attestFile sha256' lower rt options report name data := by
  rw [attestFile, attestFile, attest, attest, subjectForBytes, subjectForBytes, h]

/-- An environment statement about an empty file, and a reproduction that names it. -/
theorem attest_chain_iff_empty : ∃ environment reproduction,
    ChainChecks (digestOf environment) .standard reproduction ByteArray.empty environment ByteArray.empty ∧
      ¬ChainChecks (digestOf environment) .standard reproduction ByteArray.empty ByteArray.empty
        ByteArray.empty := by
  obtain ⟨environment, henvironment⟩ := attestFile_environment
  obtain ⟨reproduction, hreproduction⟩ : ∃ bytes, attestFile (fun _ => emptyDigest) id .standard
      ⟨"reproduction", some otherDigest⟩ Reports.unknownReport "artefact" ByteArray.empty = .ok bytes :=
    attestFile_of_no_error rfl (by decide +kernel)
  have hne : ByteArray.empty ≠ environment := by
    obtain ⟨-, -, _, _, -, hreads, -, -⟩ := attest_read emptyDigest_hex henvironment
    rintro rfl
    rw [ReadsSubject, readDocument_empty] at hreads
    cases hreads.1
  have hempty : digestOf environment ByteArray.empty = emptyDigest := if_neg hne
  have hmarked : digestOf environment environment = otherDigest := if_pos rfl
  rw [← hmarked, ← attestFile_congr hempty] at hreproduction
  rw [← attestFile_congr hempty] at henvironment
  have hiff := attest_chain_iff (digestOf_hex environment) henvironment hreproduction
    fun other => digestOf_injective
  exact ⟨environment, reproduction, (hiff _ _ _).mpr ⟨rfl, rfl, rfl⟩, fun h => hne ((hiff _ _ _).mp h).2.1⟩

/-! ## The verdict -/

/-- The exit code that the counts of a statement stand for. -/
def exitOfCounts (counts : List (Str × Json)) : Int :=
  if (dictGet? counts "BLOCKED").isSome || (dictGet? counts "ERROR").isSome then 2
  else if (dictGet? counts "WARN").isSome || (dictGet? counts "UNKNOWN").isSome then 1
  else 0

theorem environment_attest {digest : Option Str} {name : Str} {data : ByteArray} {predicateType : Str}
    {predicate : List (Str × Json)} {subject : Subject}
    (h : attest sha256 lower ⟨"environment", digest⟩ report name data =
      .ok (statement subject predicateType (.obj predicate))) :
    predicate = environmentPredicate lower report := by
  unfold attest at h
  have hstatement := Except.ok.inj ((if_pos rfl).symm.trans h)
  simp only [buildEnvironmentStatement, statement, Json.obj.injEq, List.cons.injEq, Prod.mk.injEq,
    and_true, true_and] at hstatement
  exact hstatement.2.2.symm

theorem value_injective {state state' : FindingState} (h : state.value = state'.value) : state = state' := by
  revert h
  cases state <;> cases state' <;> decide

/-- The number of findings in a state. -/
def stateCount (report : ScanReport) (state : FindingState) : Nat :=
  report.findings.countP fun f => decide (f.state = state)

theorem places_stateTexts (report : ScanReport) (state : FindingState) :
    places state.value (stateTexts report) = stateCount report state := by
  rw [places, stateTexts, List.countP_map, stateCount]
  refine List.countP_congr fun f _ => ?_
  simp only [Function.comp, decide_eq_true_eq]
  exact ⟨value_injective, fun h => h ▸ rfl⟩

/-- The count of a state, as it is read. -/
theorem dictGet?_verdictCounts (report : ScanReport) (state : FindingState) :
    dictGet? (joinedItems (verdictCounts report)) state.value =
      if stateCount report state = 0 then none else some (.int (stateCount report state)) := by
  rw [dictGet?_joinedItems]
  cases hget : dictGet? (verdictCounts report) state.value with
  | none =>
    have habsent : state.value ∉ stateTexts report := by
      intro hmem
      have hitem : (state.value, Json.int (places state.value (stateTexts report))) ∈ verdictCounts report :=
        mem_verdictCounts.mpr ⟨hmem, rfl⟩
      exact dictGet?_eq_none.mp hget (List.mem_map_of_mem hitem)
    rw [← places_stateTexts, places_of_not_mem habsent, if_pos rfl, Option.map_none]
  | some value =>
    obtain ⟨hmem, hvalue⟩ := mem_verdictCounts.mp (mem_of_dictGet? hget)
    have hvalue' : value = .int (places state.value (stateTexts report)) := hvalue
    have hpos : places state.value (stateTexts report) ≠ 0 := by
      rw [places, ← Nat.pos_iff_ne_zero, List.countP_pos_iff]
      exact ⟨_, hmem, by simp⟩
    rw [hvalue', Option.map_some, ← places_stateTexts, if_neg hpos]
    rfl

theorem isSome_verdictCounts (report : ScanReport) (state : FindingState) :
    (dictGet? (joinedItems (verdictCounts report)) state.value).isSome = true ↔
      state ∈ report.findings.map Finding.state := by
  have hcount : stateCount report state = 0 ↔ state ∉ report.findings.map Finding.state := by
    rw [stateCount, List.countP_eq_zero, List.mem_map]
    simp only [decide_eq_true_eq]
    exact ⟨fun h ⟨f, hf, hstate⟩ => h f hf hstate, fun h f hf hstate => h ⟨f, hf, hstate⟩⟩
  rw [dictGet?_verdictCounts]
  by_cases h : state ∈ report.findings.map Finding.state
  · simp [hcount, h]
  · simp [hcount, h]

theorem exitOfCounts_eq (report : ScanReport) :
    exitOfCounts (joinedItems (verdictCounts report)) = exitFor (report.findings.map Finding.state) := by
  have hblocked := isSome_verdictCounts report .blocked
  have herror := isSome_verdictCounts report .error
  have hwarn := isSome_verdictCounts report .warn
  have hunknown := isSome_verdictCounts report .unknown
  simp only [FindingState.value] at hblocked herror hwarn hunknown
  simp only [exitOfCounts, exitFor, Bool.or_eq_true, hblocked, herror, hwarn, hunknown]

/-- The environment statement counts the findings of each state, and `preflight` has the exit code
of the counts. -/
theorem attest_verdict (hhex : HexDigest sha256) {environmentDigest : Option Str} {name : Str}
    {data bytes : ByteArray}
    (h : attestFile sha256 lower rt ⟨"environment", environmentDigest⟩ report name data = .ok bytes) :
    ∃ document subject predicate counts, ReadsSubject rt bytes document subject ∧
      dictGet? document "predicate" = some (.obj predicate) ∧
      dictGet? predicate "findings" = some (.obj counts) ∧
      (∀ state : FindingState, dictGet? counts state.value =
        if stateCount report state = 0 then none else some (.int (stateCount report state))) ∧
      Reports.preflightExit report = some (exitOfCounts counts) := by
  obtain ⟨predicateType, predicate, document, subject, hattest, hreads, hpredicate, -⟩ := attest_read hhex h
  obtain rfl := environment_attest hattest
  refine ⟨document, subject, _, joinedItems (verdictCounts report), hreads, hpredicate, ?_,
    dictGet?_verdictCounts report, ?_⟩
  · rw [dictGet?_joinedItems]
    rfl
  · rw [exitOfCounts_eq, Reports.preflightExit_eq, Reports.exitFor_worstState]

theorem attest_verdict_unknown : ∃ bytes counts, attestFile (fun _ => emptyDigest) id .standard
      ⟨"environment", none⟩ Reports.unknownReport "snapshot.json" ByteArray.empty = .ok bytes ∧
    dictGet? counts (FindingState.value .unknown) = some (.int 1) ∧ exitOfCounts counts = 1 := by
  obtain ⟨bytes, hbytes⟩ := attestFile_environment
  obtain ⟨_, _, _, counts, -, -, -, hcounts, hexit⟩ := attest_verdict emptyDigest_hex hbytes
  have hpreflight : Reports.preflightExit Reports.unknownReport = some 1 := by decide
  exact ⟨bytes, counts, hbytes, hcounts .unknown, (Option.some.inj (hpreflight.symm.trans hexit)).symm⟩

end DevRepro.Compliance
