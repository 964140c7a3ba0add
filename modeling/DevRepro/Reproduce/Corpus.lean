import DevRepro.Lib.Lines
import DevRepro.Lib.Dict
import DevRepro.Python.SortedKeys
import DevRepro.Python.Surrogates
import DevRepro.Python.Words
import DevRepro.Snapshots.ChainAppend

/-!
# The corpus of reproductions

`reproduce/corpus.py`: a file to which every recorded attempt adds a line, and its
reader.  `record_attempt` reads nothing, so what several processes write is one list of
calls, in the order of their writes.  `recordAll` is such a list, where a call that raises
leaves the file alone.

`readCorpus_recordAll_iff` says when the reader returns the old attempts and the recorded
ones, and `corpusSummary_recordAll` what the summary counts.
-/

namespace DevRepro.Reproduce

open DevRepro.Python DevRepro.Lib DevRepro.Snapshots

/-! ## Attempts -/

/-- The keys of `OUTCOMES`. -/
def outcomes : List Str :=
  ["reproduced", "not-reproduced", "different-failure", "could-not-build", "precondition-unmet"]

structure Attempt where
  outcome : Str
  recordedAt : Str
  note : Str
  baseImage : Str
  pinned : Bool
  deriving DecidableEq

/-- `Attempt.as_dict` -/
def Attempt.asDict (a : Attempt) : Json :=
  .obj [("outcome", .str a.outcome), ("recorded_at", .str a.recordedAt), ("note", .str a.note),
    ("base_image", .str a.baseImage), ("pinned", .bool a.pinned)]

/-- What a call raises: a `CorpusError`, or an exception that no handler catches. -/
inductive CorpusFailure where
  | unknownOutcome (text : Str)
  | malformed (number : Nat) (e : Exc)
  | raised (e : Exc)

/-- The corpus file, and `none` where there is none. -/
abbrev CorpusFile := Option ByteArray

section

variable (rt : Runtime)

/-- `record_attempt` -/
def recordAttempt (file : CorpusFile) (a : Attempt) : Except CorpusFailure CorpusFile :=
  if a.outcome ∈ outcomes then
    match dumps rt .compact a.asDict with
    | .error e => .error (.raised e)
    | .ok line =>
      match encodeUtf8 (line ++ [codePoint '\n']) with
      | none => .error (.raised unicodeEncodeError)
      | some bytes => .ok (some (file.getD ByteArray.empty ++ bytes))
  else
    .error (.unknownOutcome (lit "unknown outcome " ++ rt.strRepr a.outcome ++
      lit "; expected one of " ++ join ", " outcomes))

/-- The attempt on a line. -/
def readAttempt (line : Str) : Except Exc Attempt := do
  let record ← loads rt.limits line
  let outcome ← (← record.getItem "outcome").toStr rt
  let recordedAt ← (← record.getItem "recorded_at").toStr rt
  let note ← (← record.getD "note" (.str [])).toStr rt
  let baseImage ← (← record.getD "base_image" (.str [])).toStr rt
  let pinned ← record.getD "pinned" (.bool false)
  return ⟨outcome, recordedAt, note, baseImage, pinned.truthy⟩

/-- `except (json.JSONDecodeError, KeyError, TypeError)` -/
def lineFailure (number : Nat) (e : Exc) : CorpusFailure :=
  if e.type ∈ [.jsonDecodeError, .keyError, .typeError] then .malformed number e else .raised e

/-- `not line.strip()` -/
def isBlankLine (line : Str) : Bool := strip line == []

/-- The attempts of a list of lines. -/
def readAttempts : Nat → List Str → Except CorpusFailure (List Attempt) :=
  readLog isBlankLine (readAttempt rt) lineFailure

/-- `read_corpus` -/
def readCorpus (file : CorpusFile) : Except CorpusFailure (List Attempt) :=
  match file with
  | none => .ok []
  | some bytes =>
    match readText bytes with
    | none => .error (.raised unicodeDecodeError)
    | some text => readAttempts rt 1 (splitlines text)

/-- The file after a call. -/
def afterRecord (file : CorpusFile) (a : Attempt) : CorpusFile :=
  match recordAttempt rt file a with
  | .ok written => written
  | .error _ => file

/-- The file after a list of calls. -/
def recordAll (file : CorpusFile) (attempts : List Attempt) : CorpusFile :=
  attempts.foldl (afterRecord rt) file

end

/-! ## The text of the file -/

variable {rt : Runtime}

/-- The text that the reader reads, and `none` for a file that is not UTF-8. -/
def corpusText? : CorpusFile → Option Str
  | none => some []
  | some bytes => readText bytes

theorem readCorpus_of_text {file : CorpusFile} {text : Str} (h : corpusText? file = some text) :
    readCorpus rt file = readAttempts rt 1 (splitlines text) := by
  cases file with
  | none =>
    cases h
    rfl
  | some bytes =>
    have hread : readText bytes = some text := h
    rw [readCorpus, hread]

/-- The record of an attempt with its keys in order, as the file holds it. -/
def attemptRecord (a : Attempt) : Json :=
  .obj [("base_image", .str a.baseImage), ("note", .str a.note), ("outcome", .str a.outcome),
    ("pinned", .bool a.pinned), ("recorded_at", .str a.recordedAt)]

theorem order_attempt (a : Attempt) : DumpStyle.compact.order a.asDict = attemptRecord a := rfl

/-- The line of an attempt, without its newline. -/
def attemptText (rt : Runtime) (a : Attempt) : Str := dumpText rt .compact 0 (attemptRecord a)

theorem attemptText_printable (a : Attempt) : PrintableText (attemptText rt a) :=
  dumpText_printable rt rfl _ 0

/-- An attempt as its record is read: JSON joins surrogate pairs. -/
def Attempt.joined (a : Attempt) : Attempt :=
  ⟨Python.joined a.outcome, Python.joined a.recordedAt, Python.joined a.note,
    Python.joined a.baseImage, a.pinned⟩

theorem attemptText_joined (a : Attempt) : attemptText rt a.joined = attemptText rt a := by
  simp only [attemptText, attemptRecord, Attempt.joined, dumpText, dumpItems, quote_joined]

theorem readable_joined {l : Limits} {level : Nat} (hl : level < l.depth) (a : Attempt) :
    Readable l level (attemptRecord a.joined) := by
  refine .obj level _ hl (by simp only [List.map_cons, List.map_nil]; decide) ?_ ?_
  · simp only [List.forall_mem_cons]
    refine ⟨?_, ?_, ?_, ?_, ?_, by simp⟩ <;> exact PrintableText.wellPaired (by decide)
  · simp only [List.forall_mem_cons]
    exact ⟨.str _ _ (wellPaired_joined _), .str _ _ (wellPaired_joined _),
      .str _ _ (wellPaired_joined _), .bool _ _, .str _ _ (wellPaired_joined _), by simp⟩

/-- The line of an attempt is read as the attempt, behind JSON blanks. -/
theorem readAttempt_attemptText (rt : Runtime) (a : Attempt) {pad : Str} (hpad : Scan.Blank pad) :
    readAttempt rt (pad ++ attemptText rt a) = .ok a.joined := by
  have hload : loads rt.limits (pad ++ attemptText rt a) = .ok (attemptRecord a.joined) := by
    rw [← attemptText_joined]
    exact loads_blank_dumpText rt .compact (readable_joined rt.depth_pos a) hpad
  rw [readAttempt, hload]
  rfl

theorem attemptText_eq_cons (rt : Runtime) (a : Attempt) :
    ∃ rest, attemptText rt a = codePoint '{' :: codePoint '"' :: codePoint 'b' :: rest := ⟨_, rfl⟩

theorem strip_attemptText_ne_nil (pad : Str) (a : Attempt) : strip (pad ++ attemptText rt a) ≠ [] := by
  obtain ⟨rest, hrest⟩ := attemptText_eq_cons rt a
  rw [ne_eq, strip_eq_nil_iff]
  intro h
  exact absurd (h (codePoint '{') (by rw [hrest]; simp)) (by decide)

theorem not_isBlankLine (rt : Runtime) (pad : Str) (a : Attempt) : isBlankLine (pad ++ attemptText rt a) = false :=
  beq_false_of_ne (strip_attemptText_ne_nil pad a)

/-! ## One call -/

/-- A call with an outcome of the list adds a line, any other call nothing. -/
theorem corpusText?_afterRecord (rt : Runtime) {file : CorpusFile} {text : Str} (h : corpusText? file = some text)
    (a : Attempt) : corpusText? (afterRecord rt file a) =
      some (if a.outcome ∈ outcomes then text ++ (attemptText rt a ++ [codePoint '\n']) else text) := by
  rw [afterRecord, recordAttempt]
  by_cases hknown : a.outcome ∈ outcomes
  · have hdump : dumps rt .compact a.asDict = .ok (attemptText rt a) := by
      rw [dumps_of_no_error, order_attempt]
      · rfl
      · refine dumpError_of_shallow ?_ (le_trans (by decide : 0 + 2 ≤ 16) (rt.dumpsDepth_ge none))
        simp [order_attempt, attemptRecord, Json.Shallow]
    have hclean : ∀ c ∈ attemptText rt a ++ [codePoint '\n'], c ≠ codePoint '\r' ∧ isSurrogate c = false := by
      intro c hc
      rcases List.mem_append.mp hc with hc | hc
      · have hprintable := attemptText_printable a c hc
        exact ⟨fun heq => absurd (heq ▸ hprintable) (by decide),
          isSurrogate_of_isPrintableAscii hprintable⟩
      · rw [List.mem_singleton.mp hc]
        decide
    obtain ⟨bytes, hbytes⟩ := encodeUtf8_isSome fun c hc => (hclean c hc).2
    have hreturn : codePoint '\r' ∉ attemptText rt a ++ [codePoint '\n'] :=
      fun hmem => (hclean _ hmem).1 rfl
    have hhead : (attemptText rt a ++ [codePoint '\n']).head? ≠ some (codePoint '\n') := by
      obtain ⟨rest, hrest⟩ := attemptText_eq_cons rt a
      rw [hrest, List.cons_append, List.head?_cons]
      decide
    simp only [hknown, if_true, hdump, hbytes]
    cases file with
    | none =>
      cases h
      rw [corpusText?, Option.getD_none, ByteArray.empty_append, readText_encode hbytes hreturn,
        List.nil_append]
    | some old => exact readText_append h hbytes hreturn hhead
  · simp only [hknown, if_false, h]

/-! ## A list of calls -/

/-- The attempts of a list of calls that are recorded. -/
def recorded (attempts : List Attempt) : List Attempt :=
  attempts.filter fun a => decide (a.outcome ∈ outcomes)

/-- The lines of attempts. -/
def attemptLines (rt : Runtime) (attempts : List Attempt) : Str :=
  attempts.flatMap fun a => attemptText rt a ++ [codePoint '\n']

theorem corpusText?_recordAll {file : CorpusFile} {text : Str} (h : corpusText? file = some text)
    (attempts : List Attempt) :
    corpusText? (recordAll rt file attempts) = some (text ++ attemptLines rt (recorded attempts)) := by
  induction attempts generalizing file text with
  | nil =>
    rw [recorded, List.filter_nil, attemptLines, List.flatMap_nil, List.append_nil]
    exact h
  | cons a rest ih =>
    have hstep := ih (corpusText?_afterRecord rt h a)
    rw [recordAll, List.foldl_cons]
    rw [recordAll] at hstep
    rw [hstep, recorded, recorded, List.filter_cons]
    by_cases hknown : a.outcome ∈ outcomes
    · simp only [hknown, decide_true, if_true, attemptLines, List.flatMap_cons, List.append_assoc]
    · simp only [hknown, decide_false, if_false, Bool.false_eq_true]

/-- The attempts of a text. -/
def attemptsOf (rt : Runtime) (text : Str) : Except CorpusFailure (List Attempt) :=
  readAttempts rt 1 (splitlines text)

theorem attemptText_ne_nil (a : Attempt) : attemptText rt a ≠ [] := by
  obtain ⟨rest, hrest⟩ := attemptText_eq_cons rt a
  rw [hrest]
  exact List.cons_ne_nil _ _

theorem attemptText_no_break (a : Attempt) : ∀ c ∈ attemptText rt a, isLineBreak c = false :=
  fun c hc => isLineBreak_of_isPrintableAscii (attemptText_printable a c hc)

/-- A recorded line belongs to what the text ended with. -/
theorem splitlines_line (text : Str) (a : Attempt) :
    splitlines (text ++ (attemptText rt a ++ [codePoint '\n'])) =
      (scanLines text).1 ++ [unterminated text ++ attemptText rt a] :=
  splitlines_append_line text _ (attemptText_ne_nil a) (attemptText_no_break a)

theorem unterminated_line (text : Str) (a : Attempt) :
    unterminated (text ++ (attemptText rt a ++ [codePoint '\n'])) = [] := by
  rw [unterminated, scanLines_append_line text _ (attemptText_ne_nil a) (attemptText_no_break a)]

/-- The end of a text that holds nothing but blanks is no line of its own. -/
theorem attemptsOf_blank {text : Str} (h : Scan.Blank (unterminated text)) :
    attemptsOf rt text = readAttempts rt 1 (scanLines text).1 := by
  rw [attemptsOf, splitlines]
  split_ifs with hnil
  · rw [List.append_nil]
  · have hblank : isBlankLine (scanLines text).2 = true :=
      beq_iff_eq.mpr (strip_eq_nil_of_blank h)
    exact readLog_snoc_blank hblank

theorem attemptsOf_line {text : Str} (h : Scan.Blank (unterminated text)) (a : Attempt) :
    attemptsOf rt (text ++ (attemptText rt a ++ [codePoint '\n'])) =
      attemptsOf rt text >>= fun old => .ok (old ++ [a.joined]) := by
  have hline := not_isBlankLine rt (unterminated text) a
  rw [attemptsOf_blank h, attemptsOf, splitlines_line]
  exact readLog_snoc_record _ _ _ hline (readAttempt_attemptText rt a h)

/-- Recorded lines behind a text that ends with blanks are read behind its attempts. -/
theorem attemptsOf_lines (rt : Runtime) {text : Str} (h : Scan.Blank (unterminated text)) (attempts : List Attempt) :
    attemptsOf rt (text ++ attemptLines rt attempts) =
      attemptsOf rt text >>= fun old => .ok (old ++ attempts.map Attempt.joined) := by
  induction attempts generalizing text with
  | nil =>
    rw [attemptLines, List.flatMap_nil, List.append_nil, List.map_nil]
    cases attemptsOf rt text with
    | error e => rfl
    | ok old => exact congrArg Except.ok (List.append_nil old).symm
  | cons a rest ih =>
    have hblank : Scan.Blank (unterminated (text ++ (attemptText rt a ++ [codePoint '\n']))) := by
      rw [unterminated_line]
      exact Scan.blank_nil
    rw [attemptLines, List.flatMap_cons, ← List.append_assoc]
    rw [attemptLines] at ih
    rw [ih hblank, attemptsOf_line h]
    cases attemptsOf rt text with
    | error e => rfl
    | ok old =>
      show Except.ok (old ++ [a.joined] ++ rest.map Attempt.joined) = _
      rw [List.append_assoc]
      rfl

/-- A line that is read as an attempt behind something else stands behind blanks, if that
something was passed over before. -/
theorem blank_of_readAttempt {pad rest : Str} {a : Attempt} (hpad : strip pad = [])
    (h : readAttempt rt (pad ++ rest) = .ok a) : Scan.Blank pad := by
  obtain ⟨record, hload, -⟩ := bind_eq_ok.mp h
  exact blank_of_loads ((strip_eq_nil_iff pad).mp hpad) hload

/-- The first line behind something else gives no attempt more. -/
theorem attemptsOf_glued {text : Str} {a : Attempt} {old new : List Attempt}
    (hold : attemptsOf rt text = .ok old) (hblank : ¬Scan.Blank (unterminated text))
    (hnew : attemptsOf rt (text ++ (attemptText rt a ++ [codePoint '\n'])) = .ok new) :
    new.length = old.length := by
  rw [attemptsOf, splitlines_line] at hnew
  obtain ⟨before, hbefore, hcase⟩ := readLog_snoc hnew
  have hline := not_isBlankLine rt (unterminated text) a
  obtain ⟨record, hrecord, rfl⟩ : ∃ record, readAttempt rt (unterminated text ++ attemptText rt a) =
      .ok record ∧ new = before ++ [record] := by
    rcases hcase with ⟨hstrip, -⟩ | ⟨-, hrecord⟩
    · rw [hline] at hstrip
      cases hstrip
    · exact hrecord
  have hne : (scanLines text).2 ≠ [] := by
    intro hnil
    refine hblank ?_
    rw [unterminated, hnil]
    exact Scan.blank_nil
  rw [attemptsOf, splitlines, if_neg hne] at hold
  obtain ⟨before', hbefore', hcase'⟩ := readLog_snoc hold
  have hsame : before' = before := by
    rw [hbefore] at hbefore'
    exact (Except.ok.inj hbefore').symm
  rcases hcase' with ⟨hstrip, -⟩ | ⟨-, last, -, rfl⟩
  · exact absurd (blank_of_readAttempt (beq_iff_eq.mp hstrip) hrecord) hblank
  · rw [hsame, List.length_append, List.length_append]
    rfl

theorem readCorpus_recordAll (rt : Runtime) {file : CorpusFile} {text : Str} {old : List Attempt}
    (htext : corpusText? file = some text) (hold : readCorpus rt file = .ok old)
    (hblank : Scan.Blank (unterminated text)) (attempts : List Attempt) :
    readCorpus rt (recordAll rt file attempts) =
      .ok (old ++ (recorded attempts).map Attempt.joined) := by
  have hread : attemptsOf rt text = .ok old := (readCorpus_of_text htext).symm.trans hold
  rw [readCorpus_of_text (corpusText?_recordAll htext attempts)]
  show attemptsOf rt _ = _
  rw [attemptsOf_lines rt hblank, hread]
  rfl

/-- After any list of calls the reader returns the old attempts and then the recorded
ones exactly when the file ended in blanks before, or nothing was recorded. -/
theorem readCorpus_recordAll_iff (rt : Runtime) {file : CorpusFile} {text : Str} {old : List Attempt}
    (htext : corpusText? file = some text) (hold : readCorpus rt file = .ok old)
    (attempts : List Attempt) :
    readCorpus rt (recordAll rt file attempts) =
        .ok (old ++ (recorded attempts).map Attempt.joined) ↔
      Scan.Blank (unterminated text) ∨ recorded attempts = [] := by
  have hread : attemptsOf rt text = .ok old := (readCorpus_of_text htext).symm.trans hold
  rw [readCorpus_of_text (corpusText?_recordAll htext attempts)]
  show attemptsOf rt _ = _ ↔ _
  constructor
  · intro h
    rw [or_iff_not_imp_left]
    intro hblank
    cases hrec : recorded attempts with
    | nil => rfl
    | cons a rest =>
      exfalso
      have hend : Scan.Blank (unterminated (text ++ (attemptText rt a ++ [codePoint '\n']))) := by
        rw [unterminated_line]
        exact Scan.blank_nil
      rw [hrec, attemptLines, List.flatMap_cons, ← List.append_assoc] at h
      have hlines := attemptsOf_lines rt hend rest
      rw [attemptLines] at hlines
      rw [hlines] at h
      obtain ⟨new, hnew, h⟩ := bind_eq_ok.mp h
      have hlength := attemptsOf_glued hread hblank hnew
      have hcount := congrArg List.length (Except.ok.inj h)
      simp only [List.length_append, List.length_map, List.length_cons] at hcount
      omega
  · rintro (hblank | hnil)
    · have hafter := readCorpus_recordAll rt htext hold hblank attempts
      rwa [readCorpus_of_text (corpusText?_recordAll htext attempts)] at hafter
    · rw [hnil, attemptLines, List.flatMap_nil, List.append_nil, hread]
      exact congrArg Except.ok (List.append_nil old).symm

/-- A container in which the failure happened. -/
def sampleAttempt : Attempt := ⟨"reproduced", "2026-01-02T03:04:05+00:00", [], "python:3.12-slim", true⟩

/-- A call that names no outcome of the list. -/
def unknownAttempt : Attempt := ⟨"worked", "2026-01-02T03:04:05+00:00", [], [], false⟩

theorem readCorpus_none : readCorpus rt none = .ok [] := rfl

theorem readCorpus_recordAll_iff_first :
    readCorpus .standard (recordAll .standard none [unknownAttempt, sampleAttempt]) =
      .ok [sampleAttempt.joined] :=
  (readCorpus_recordAll_iff .standard (rfl : corpusText? none = some []) readCorpus_none
    [unknownAttempt, sampleAttempt]).mpr (.inl Scan.blank_nil)

/-! ## The summary -/

/-- `MINIMUM_SAMPLE` -/
def minimumSample : Nat := 10

structure CorpusSummary where
  total : Nat
  counts : Dict Str Nat
  rate : Option PyFloat
  caveat : Str

/-- `CorpusSummary.as_dict` -/
def CorpusSummary.asDict (s : CorpusSummary) : Json :=
  .obj [("total", .int s.total),
    ("counts", .obj ((sortByKey s.counts.items).map fun item => (item.1, .int item.2))),
    ("reproduction_rate", s.rate.elim .null .float), ("caveat", .str s.caveat)]

/-- `summarise`, where `ratio` rounds the quotient of two counts. -/
def summarise (ratio : Nat → Nat → PyFloat) (attempts : List Attempt) : CorpusSummary :=
  let counts := tally (attempts.map Attempt.outcome)
  let total := attempts.length
  if total < minimumSample then
    ⟨total, counts, none, natStr total ++ lit " recorded attempt(s); no rate is reported below " ++
      natStr minimumSample ++ lit ". A percentage from a handful of attempts is a " ++
      lit "number somebody will quote and nobody can defend."⟩
  else
    ⟨total, counts, some (ratio ((counts.get? "reproduced").getD 0) total),
      lit "Recorded on this machine only; nothing is uploaded and there is no " ++
      lit "aggregate anywhere. 'different-failure' counts as not reproduced -- a " ++
      lit "recipe that ran and produced some other error has reproduced nothing, " ++
      lit "and counting it as success is how a rate reaches 95%."⟩

/-- The summary of a corpus. -/
def corpusSummary (rt : Runtime) (ratio : Nat → Nat → PyFloat) (file : CorpusFile) :
    Except CorpusFailure CorpusSummary := do
  return summarise ratio (← readCorpus rt file)

variable {ratio : Nat → Nat → PyFloat}

theorem summarise_total (attempts : List Attempt) :
    (summarise ratio attempts).total = attempts.length := by
  rw [summarise]
  split_ifs <;> rfl

theorem summarise_counts (attempts : List Attempt) :
    (summarise ratio attempts).counts = tally (attempts.map Attempt.outcome) := by
  rw [summarise]
  split_ifs <;> rfl

/-- The order of the attempts is not in the summary. -/
theorem asDict_summarise_perm {attempts others : List Attempt} (h : attempts.Perm others) :
    (summarise ratio attempts).asDict = (summarise ratio others).asDict := by
  have houtcomes := h.map Attempt.outcome
  have hcount : ((tally (attempts.map Attempt.outcome)).get? "reproduced").getD 0 =
      ((tally (others.map Attempt.outcome)).get? "reproduced").getD 0 := by
    rw [getD_tally, getD_tally]
    exact houtcomes.countP_eq _
  have hsorted := sortByKey_eq_of_perm (tally (attempts.map Attempt.outcome)).nodup
    (tally_perm houtcomes)
  simp only [CorpusSummary.asDict, summarise, h.length_eq, hcount]
  split_ifs <;> simp only [hsorted]

/-- The outcome of a recorded attempt is read as it was written. -/
theorem joined_outcome {a : Attempt} (h : a.outcome ∈ outcomes) : a.joined.outcome = a.outcome := by
  have hpaired : ∀ outcome ∈ outcomes, WellPaired outcome := by
    simp only [outcomes, List.forall_mem_cons]
    refine ⟨?_, ?_, ?_, ?_, ?_, by simp⟩ <;> exact PrintableText.wellPaired (by decide)
  exact joined_of_wellPaired (hpaired a.outcome h)

theorem outcomes_recorded (attempts : List Attempt) :
    ((recorded attempts).map Attempt.joined).map Attempt.outcome =
      (attempts.map Attempt.outcome).filter fun outcome => decide (outcome ∈ outcomes) := by
  rw [List.map_map, recorded, List.filter_map]
  refine List.map_congr_left fun a ha => ?_
  exact joined_outcome (of_decide_eq_true (List.mem_filter.mp ha).2)

end DevRepro.Reproduce
