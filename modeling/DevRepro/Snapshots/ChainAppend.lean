import DevRepro.Python.Words
import DevRepro.Snapshots.ChainVerify

/-!
# What `append_entry` does to a chain

The append writes a line at the end of the chain file without looking at what
the file ends with.  `chainText?` is the text of the file, `unterminated` the
part of it after the last line boundary, and `TailBlank` says that this part
holds nothing but JSON blanks.

`readChain_append_iff` is the result on the log: the entries are the old ones
and the new one exactly when the tail is blank and the time stamp is well
paired.  `verify_append_iff` is the result on the verification, for which no
recorded name may lead to a file that the two writes touch.
-/

namespace DevRepro.Snapshots

open DevRepro.Python
open DevRepro.Lib.HashChain

/-! ## Directories -/

@[simp] theorem Directory.write_locate (d : Directory) (name : Str) (bytes : ByteArray) :
    (d.write name bytes).locate = d.locate := rfl

theorem Directory.node_write {d : Directory} {name : Str} {bytes : ByteArray} {other : Str}
    (ho : isOsName other = true) :
    (d.write name bytes).node other =
      if d.locate other = d.locate name then .file bytes else d.node other := by
  simp only [Directory.node, ho, if_true, Directory.write, Function.update_apply]

theorem Directory.file?_write {d : Directory} {name : Str} {bytes : ByteArray} {other : Str}
    (ho : isOsName other = true) :
    (d.write name bytes).file? other =
      if d.locate other = d.locate name then some bytes else d.file? other := by
  rw [Directory.file?, Directory.node_write ho, Directory.file?]
  split_ifs <;> rfl

/-- Only a name of the operating system leads to a file. -/
theorem Directory.isOsName_of_file? {d : Directory} {name : Str} {bytes : ByteArray}
    (h : d.file? name = some bytes) : isOsName name = true := by
  unfold Directory.file? Directory.node at h
  split_ifs at h with hos
  exact hos

theorem Directory.mem_names_write {d : Directory} {name : Str} {bytes : ByteArray} {other : Str} :
    other ∈ (d.write name bytes).names ↔ other ∈ d.names ∨ other = name := by
  simp only [Directory.write]
  split_ifs with h
  · constructor
    · exact Or.inl
    · rintro (ho | rfl)
      · exact ho
      · exact h
  · simp

theorem isOsName_chainFilename : isOsName chainFilename = true := by decide

theorem mem_of_mem_pathName {path : Str} {c : CodePoint} (h : c ∈ pathName path) : c ∈ path := by
  rw [pathName] at h
  cases hl : ((path.splitOn (codePoint '/')).filter
      fun part => part != [] && part != lit ".").getLast? with
  | none =>
    rw [List.getLastD_eq_getLast?, hl] at h
    cases h
  | some part =>
    rw [List.getLastD_eq_getLast?, hl] at h
    exact mem_of_mem_splitOn (List.mem_of_mem_filter (List.mem_of_getLast? hl)) h

/-- Without a high surrogate there is no pair. -/
theorem wellPaired_of_no_high {name : Str} (h : ∀ c ∈ name, isHighSurrogate c = false) :
    WellPaired name := by
  induction name with
  | nil => exact Scan.wellPaired_nil
  | cons c name ih =>
    rw [List.forall_mem_cons] at h
    refine List.isChain_cons.mpr ⟨fun d _ hpair => ?_, ih h.2⟩
    rw [h.1] at hpair
    exact absurd hpair.1 (by decide)

theorem pathName_wellPaired {path : Str} (h : isOsName path = true) :
    WellPaired (pathName path) := by
  refine wellPaired_of_no_high fun c hc => ?_
  rw [isOsName, List.all_eq_true] at h
  have hos := h c (mem_of_mem_pathName hc)
  by_contra hhigh
  rw [Bool.not_eq_false, isHighSurrogate_iff] at hhigh
  simp only [Bool.and_eq_true, Bool.or_eq_true, Bool.not_eq_true', isSurrogate_eq_false_iff,
    decide_eq_true_eq] at hos
  omega

section

variable {H : Sha256} {rt : Runtime}

/-! ## The line of a link -/

/-- The record of a link with its keys in order, as the file holds it. -/
def recordOf (e : ChainEntry) : Json :=
  .obj [("digest", .str e.digest), ("entry_digest", .str e.digestOfEntry),
    ("filename", .str e.filename), ("prev", .str e.prev), ("recorded_at", .str e.recordedAt),
    ("schema", .str schema), ("seq", .int e.seq)]

theorem order_asDict (e : ChainEntry) : DumpStyle.compact.order e.asDict = recordOf e := rfl

/-- The text of a link, without its newline. -/
def recordText (rt : Runtime) (e : ChainEntry) : Str := dumpText rt .compact 0 (recordOf e)

theorem recordText_printable (rt : Runtime) (e : ChainEntry) : PrintableText (recordText rt e) :=
  dumpText_printable rt rfl _ 0

theorem recordText_eq_cons (rt : Runtime) (e : ChainEntry) :
    ∃ rest, recordText rt e = codePoint '\x7b' :: rest := ⟨_, rfl⟩

theorem entryLine_ok {e : ChainEntry} {line : Str} (h : entryLine rt e = .ok line) :
    fitsDigits rt.limits e.seq = true ∧ line = recordText rt e ++ [codePoint '\n'] := by
  obtain ⟨text, htext, hline⟩ := bind_eq_ok.mp h
  rw [pure_eq_ok] at hline
  obtain ⟨herror, rfl⟩ := dumps_ok htext
  rw [order_asDict] at herror hline
  refine ⟨?_, hline.symm⟩
  unfold recordOf dumpError at herror
  split_ifs at herror
  simpa [dumpErrorItems, dumpError] using herror

/-- The record of a well-paired link reads back. -/
theorem readable_recordOf {l : Limits} (hl : 0 < l.depth) {e : ChainEntry} (he : e.Paired)
    (hseq : fitsDigits l e.seq = true) : Readable l 0 (recordOf e) := by
  have hschema : WellPaired schema := PrintableText.wellPaired (by decide)
  refine .obj 0 _ hl (by simp only [List.map_cons, List.map_nil]; decide) ?_ ?_
  · simp only [List.forall_mem_cons]
    refine ⟨?_, ?_, ?_, ?_, ?_, ?_, ?_, by simp⟩ <;> exact PrintableText.wellPaired (by decide)
  · simp only [List.forall_mem_cons]
    exact ⟨.str _ _ he.digest, .str _ _ he.digestOfEntry, .str _ _ he.filename, .str _ _ he.prev,
      .str _ _ he.recordedAt, .str _ _ hschema, .int _ _ hseq, by simp⟩

/-- A line that holds the record of a link, behind blanks, is read as the
link. -/
theorem readRecord_recordText {e : ChainEntry} (he : e.Paired)
    (hseq : fitsDigits rt.limits e.seq = true) {pad : Str} (hpad : Scan.Blank pad) :
    readRecord rt (pad ++ recordText rt e) = .ok e := by
  have hload : loads rt.limits (pad ++ recordText rt e) = .ok (recordOf e) :=
    loads_blank_dumpText rt .compact (readable_recordOf rt.depth_pos he hseq) hpad
  rw [readRecord, hload]
  rfl

/-! ## The text of the chain file -/

/-- The text that `read_chain` reads, and `none` for a file that is not
UTF-8. -/
def chainText? (d : Directory) : Option Str :=
  match d.node chainFilename with
  | .file bytes => readText bytes
  | _ => some []

theorem readChain_of_text {d : Directory} {text : Str} (h : chainText? d = some text) :
    readChain rt d = readLines rt 1 (splitlines text) := by
  unfold chainText? at h
  unfold readChain
  cases hn : d.node chainFilename with
  | file bytes => simp only [hn] at h; simp only [h]
  | absent => simp only [hn] at h; cases h; rfl
  | directory => simp only [hn] at h; cases h; rfl

theorem chainText?_of_readChain {d : Directory} {entries : List ChainEntry}
    (h : readChain rt d = .ok entries) : ∃ text, chainText? d = some text := by
  unfold readChain at h
  unfold chainText?
  cases hn : d.node chainFilename with
  | file bytes =>
    simp only [hn] at h ⊢
    cases ht : readText bytes with
    | none => simp only [ht] at h; cases h
    | some text => exact ⟨text, rfl⟩
  | absent => exact ⟨[], rfl⟩
  | directory => exact ⟨[], rfl⟩

theorem chainText?_not_surrogate {d : Directory} {text : Str} (h : chainText? d = some text) :
    ∀ c ∈ text, isSurrogate c = false := by
  unfold chainText? at h
  split at h
  · exact readText_not_surrogate h
  · cases h
    intro c hc
    cases hc

/-- The part of the chain file behind the last line boundary holds nothing but
JSON blanks. -/
def TailBlank (d : Directory) : Prop :=
  ∀ text, chainText? d = some text → Scan.Blank (unterminated text)

theorem readText_encode {s : Str} {bytes : ByteArray} (h : encodeUtf8 s = some bytes)
    (hr : codePoint '\r' ∉ s) : readText bytes = some s := by
  rw [readText, decodeUtf8_encodeUtf8 h, Option.map_some, universalNewlines_eq_self hr]

/-- A text written behind a file is read behind the text of the file. -/
theorem readText_append {old new : ByteArray} {s t : Str} (hold : readText old = some s)
    (hnew : encodeUtf8 t = some new) (hr : codePoint '\r' ∉ t)
    (hhead : t.head? ≠ some (codePoint '\n')) : readText (old ++ new) = some (s ++ t) := by
  obtain ⟨raw, hraw, rfl⟩ := Option.map_eq_some_iff.mp hold
  rw [readText, decodeUtf8_append hraw (decodeUtf8_encodeUtf8 hnew), Option.map_some,
    universalNewlines_append _ _ hhead, universalNewlines_eq_self hr]

/-- The second half of `append_entry` writes the chain file, and adds the line
of the link to its text. -/
theorem writeEntry_ok {d d' : Directory} {e : ChainEntry} (h : writeEntry rt d e = .ok d') :
    fitsDigits rt.limits e.seq = true ∧
      (∃ bytes, d' = d.write chainFilename bytes) ∧
      ∀ text, chainText? d = some text →
        chainText? d' = some (text ++ (recordText rt e ++ [codePoint '\n'])) := by
  obtain ⟨line, hline, h⟩ := bind_eq_ok.mp h
  obtain ⟨hfits, rfl⟩ : fitsDigits rt.limits e.seq = true ∧
      line = recordText rt e ++ [codePoint '\n'] := by
    cases hl : entryLine rt e with
    | error exc => rw [hl] at hline; cases hline
    | ok line' => rw [hl] at hline; cases hline; exact entryLine_ok hl
  have hr : codePoint '\r' ∉ recordText rt e ++ [codePoint '\n'] := by
    intro hmem
    rcases List.mem_append.mp hmem with hmem | hmem
    · exact absurd (recordText_printable rt e _ hmem) (by decide)
    · exact absurd (List.mem_singleton.mp hmem) (by decide)
  have hhead : (recordText rt e ++ [codePoint '\n']).head? ≠ some (codePoint '\n') := by
    obtain ⟨rest, hrest⟩ := recordText_eq_cons rt e
    rw [hrest, List.cons_append, List.head?_cons]
    decide
  have hwritten : ∀ bytes,
      chainText? (d.write chainFilename bytes) = readText bytes := by
    intro bytes
    rw [chainText?, Directory.node_write isOsName_chainFilename, if_pos rfl]
  refine ⟨hfits, ?_⟩
  split at h
  · cases h
  · cases h
  · rename_i bytes hnode hbytes
    cases h
    refine ⟨⟨_, rfl⟩, fun text htext => ?_⟩
    rw [chainText?, hnode] at htext
    cases htext
    rw [hwritten, readText_encode hbytes hr, List.nil_append]
  · rename_i old bytes hnode hbytes
    cases h
    refine ⟨⟨_, rfl⟩, fun text htext => ?_⟩
    rw [chainText?, hnode] at htext
    rw [hwritten, readText_append htext hbytes hr hhead]

/-! ## Reading behind an append -/

theorem readLines_append (number : Nat) (a b : List Str) :
    readLines rt number (a ++ b) =
      readLines rt number a >>= fun x => readLines rt (number + a.length) b >>= fun y =>
        .ok (x ++ y) := by
  induction a generalizing number with
  | nil =>
    rw [List.nil_append, List.length_nil, Nat.add_zero, readLines]
    cases readLines rt number b <;> rfl
  | cons line a ih =>
    rw [List.cons_append, readLines, readLines, List.length_cons, ih,
      show number + (a.length + 1) = number + 1 + a.length by omega]
    split_ifs
    · rfl
    · cases readRecord rt line with
      | error e => rfl
      | ok entry =>
        cases readLines rt (number + 1) a with
        | error e => rfl
        | ok x => cases readLines rt (number + 1 + a.length) b <;> rfl

/-- One line is blank, or holds a record. -/
theorem readLines_singleton {number : Nat} {line : Str} {entries : List ChainEntry} :
    readLines rt number [line] = .ok entries ↔
      strip line = [] ∧ entries = [] ∨
        strip line ≠ [] ∧ ∃ e, readRecord rt line = .ok e ∧ entries = [e] := by
  rw [readLines]
  split_ifs with h
  · simp [h, readLines, eq_comm]
  · cases readRecord rt line with
    | error e => simp [h]
    | ok e =>
      have hpure : (readLines rt (number + 1) [] >>= fun more => pure (e :: more) :
          Except Failure (List ChainEntry)) = .ok [e] := rfl
      simp [h, hpure, eq_comm]

theorem strip_eq_nil_of_blank {s : Str} (h : Scan.Blank s) : strip s = [] := by
  rw [strip_eq_nil_iff]
  intro c hc
  have hjson := h c hc
  simp only [Scan.isJsonSpace, Bool.or_eq_true, beq_iff_eq] at hjson
  rcases hjson with ((rfl | rfl) | rfl) | rfl <;> decide

/-- A line with the record of a link in it is not blank. -/
theorem strip_recordText_ne_nil (pad : Str) (e : ChainEntry) :
    strip (pad ++ recordText rt e) ≠ [] := by
  obtain ⟨rest, hrest⟩ := recordText_eq_cons rt e
  rw [ne_eq, strip_eq_nil_iff]
  intro h
  exact absurd (h (codePoint '\x7b') (by rw [hrest]; simp)) (by decide)

/-- What `read_chain` finds when a line was added to the text: the entries of
the complete lines, and the record of the last line, to which the unterminated
end of the old text now belongs. -/
theorem readLines_appended {text : Str} {e : ChainEntry} {entries : List ChainEntry} :
    readLines rt 1 (splitlines (text ++ (recordText rt e ++ [codePoint '\n']))) = .ok entries ↔
      ∃ complete last, readLines rt 1 (scanLines text).1 = .ok complete ∧
        readRecord rt (unterminated text ++ recordText rt e) = .ok last ∧
        entries = complete ++ [last] := by
  obtain ⟨rest, hrest⟩ := recordText_eq_cons rt e
  rw [splitlines_append_line text _ (by rw [hrest]; simp) fun c hc =>
    isLineBreak_of_isPrintableAscii (recordText_printable rt e c hc), readLines_append]
  simp only [bind_eq_ok, readLines_singleton, strip_recordText_ne_nil, ne_eq, not_false_eq_true,
    false_and, true_and, false_or]
  constructor
  · rintro ⟨complete, hc, _, ⟨last, hl, rfl⟩, hok⟩
    cases hok
    exact ⟨complete, last, hc, hl, rfl⟩
  · rintro ⟨complete, last, hc, hl, rfl⟩
    exact ⟨complete, hc, [last], ⟨last, hl, rfl⟩, rfl⟩

/-- What `read_chain` finds in a text: the entries of the complete lines, and
at most one in the unterminated end. -/
theorem readLines_splitlines {text : Str} {entries : List ChainEntry}
    (h : readLines rt 1 (splitlines text) = .ok entries) :
    ∃ complete rest, readLines rt 1 (scanLines text).1 = .ok complete ∧
      entries = complete ++ rest ∧ (rest = [] ↔ strip (unterminated text) = []) := by
  rw [splitlines, readLines_append] at h
  obtain ⟨complete, hc, h⟩ := bind_eq_ok.mp h
  obtain ⟨rest, hr, h⟩ := bind_eq_ok.mp h
  cases h
  refine ⟨complete, rest, hc, rfl, ?_⟩
  split_ifs at hr with hnil
  · cases hr
    have hstrip : strip (unterminated text) = [] := by
      rw [unterminated, hnil]
      rfl
    simp [hstrip]
  · rcases readLines_singleton.mp hr with ⟨hs, rfl⟩ | ⟨hs, e, _, rfl⟩
    · simp [unterminated, hs]
    · simp [unterminated, hs]

/-- After the write the chain is the old one and the new link exactly when the
file ended in blanks and the link is well paired. -/
theorem readChain_writeEntry_iff {d d' : Directory} {e : ChainEntry} {existing : List ChainEntry}
    (hread : readChain rt d = .ok existing) (hwrite : writeEntry rt d e = .ok d') :
    readChain rt d' = .ok (existing ++ [e]) ↔ TailBlank d ∧ e.Paired := by
  obtain ⟨text, htext⟩ := chainText?_of_readChain hread
  obtain ⟨hfits, _, happended⟩ := writeEntry_ok hwrite
  rw [readChain_of_text htext] at hread
  rw [readChain_of_text (happended text htext), readLines_appended]
  obtain ⟨complete, rest, hcomplete, rfl, hrest⟩ := readLines_splitlines hread
  have htail : TailBlank d ↔ Scan.Blank (unterminated text) := by
    constructor
    · exact fun h => h text htext
    · intro h text' htext'
      rw [htext] at htext'
      cases htext'
      exact h
  rw [htail]
  constructor
  · rintro ⟨complete', last, hcomplete', hlast, heq⟩
    rw [hcomplete] at hcomplete'
    cases hcomplete'
    have hlen := congrArg List.length heq
    simp only [List.length_append, List.length_singleton] at hlen
    have hnil : rest = [] := List.eq_nil_of_length_eq_zero (by omega)
    subst hnil
    have hstrip : strip (unterminated text) = [] := hrest.mp rfl
    have hlast_eq : last = e := by simpa using heq.symm
    subst hlast_eq
    refine ⟨?_, readRecord_paired (fun c hc => ?_) hlast⟩
    · obtain ⟨record, hload, _⟩ := bind_eq_ok.mp hlast
      exact blank_of_loads ((strip_eq_nil_iff _).mp hstrip) hload
    · rcases List.mem_append.mp hc with hc | hc
      · exact chainText?_not_surrogate htext c (mem_scanLines.2 hc)
      · exact isSurrogate_of_isPrintableAscii (recordText_printable rt last c hc)
  · rintro ⟨hblank, hpaired⟩
    have hnil : rest = [] := hrest.mpr (strip_eq_nil_of_blank hblank)
    subst hnil
    exact ⟨complete, e, hcomplete, readRecord_recordText hpaired hfits hblank, by simp⟩

/-! ## The new link -/

/-- The link that `append_entry` computes commits to the file, to the entries
that are there, and to itself. -/
structure Follows (H : Sha256) (rt : Runtime) (existing : List ChainEntry) (data : ByteArray)
    (filename recordedAt : Str) (e : ChainEntry) : Prop where
  seq : e.seq = existing.length + 1
  recordedAt : e.recordedAt = recordedAt
  filename : e.filename = filename
  digest : e.digest = H.hexdigest data
  prev : e.prev = headDigest existing
  sealed : Sealed H rt e

theorem nextEntry_ok {existing : List ChainEntry} {data : ByteArray} {filename recordedAt : Str}
    {e : ChainEntry} (h : nextEntry H rt existing data filename recordedAt = .ok e) :
    Follows H rt existing data filename recordedAt e := by
  obtain ⟨own, hown, h⟩ := bind_eq_ok.mp h
  rw [pure_eq_ok] at h
  subst h
  exact ⟨rfl, rfl, rfl, rfl, rfl, hown⟩

theorem prepareEntry_ok {d : Directory} {path recordedAt : Str} {e : ChainEntry}
    (h : prepareEntry H rt d path recordedAt = .ok e) :
    isOsName path = true ∧ ∃ data existing, d.file? path = some data ∧
      readChain rt d = .ok existing ∧ Follows H rt existing data (pathName path) recordedAt e := by
  unfold prepareEntry at h
  split_ifs at h with hos
  refine ⟨hos, ?_⟩
  cases hfile : d.file? path with
  | none => rw [hfile] at h; cases h
  | some data =>
    rw [hfile] at h
    obtain ⟨existing, hread, h⟩ := bind_eq_ok.mp h
    refine ⟨data, existing, rfl, hread, ?_⟩
    cases hnext : nextEntry H rt existing data (pathName path) recordedAt with
    | error exc => rw [hnext] at h; cases h
    | ok e' => rw [hnext] at h; cases h; exact nextEntry_ok hnext

theorem appendEntry_ok {d d' : Directory} {path recordedAt : Str} {e : ChainEntry}
    (h : appendEntry H rt d path recordedAt = .ok (e, d')) :
    prepareEntry H rt d path recordedAt = .ok e ∧ writeEntry rt d e = .ok d' := by
  obtain ⟨e', he, h⟩ := bind_eq_ok.mp h
  obtain ⟨d'', hd, h⟩ := bind_eq_ok.mp h
  rw [pure_eq_ok] at h
  cases h
  exact ⟨he, hd⟩

theorem headDigest_append (existing : List ChainEntry) (e : ChainEntry) :
    headDigest (existing ++ [e]) = e.digestOfEntry := by
  simp [headDigest]

theorem headDigest_wellPaired {existing : List ChainEntry} (h : ∀ e ∈ existing, e.Paired) :
    WellPaired (headDigest existing) := by
  induction existing using List.reverseRecOn with
  | nil => exact PrintableText.wellPaired (by decide)
  | append_singleton xs x _ =>
    rw [headDigest_append]
    exact (h x (by simp)).digestOfEntry

/-- The only string of a new link that can fail to be well paired is the time
stamp. -/
theorem Follows.paired_iff {existing : List ChainEntry} {data : ByteArray}
    {filename recordedAt : Str} {e : ChainEntry}
    (h : Follows H rt existing data filename recordedAt e) (hp : ∀ x ∈ existing, x.Paired)
    (hf : WellPaired filename) : e.Paired ↔ WellPaired recordedAt := by
  constructor
  · intro he
    rw [← h.recordedAt]
    exact he.recordedAt
  · intro hr
    refine ⟨h.recordedAt ▸ hr, h.filename ▸ hf, ?_, ?_, ?_⟩
    · rw [h.digest]
      exact (hexdigest_printable H data).wellPaired
    · rw [h.prev]
      exact headDigest_wellPaired hp
    · obtain ⟨_, bytes, _, hown⟩ := entryDigest_ok h.sealed
      rw [hown]
      exact (hexdigest_printable H bytes).wellPaired

/-- After `append_entry` the chain is the old one and the new link exactly
when the file ended in blanks and the time stamp is well paired. -/
theorem readChain_append_iff {d d' : Directory} {path recordedAt : Str} {e : ChainEntry}
    {existing : List ChainEntry} (hread : readChain rt d = .ok existing)
    (happend : appendEntry H rt d path recordedAt = .ok (e, d')) :
    readChain rt d' = .ok (existing ++ [e]) ↔ TailBlank d ∧ WellPaired recordedAt := by
  obtain ⟨hprepare, hwrite⟩ := appendEntry_ok happend
  obtain ⟨hos, data, existing', _, hread', hfollows⟩ := prepareEntry_ok hprepare
  obtain rfl : existing = existing' := by rw [hread] at hread'; cases hread'; rfl
  rw [readChain_writeEntry_iff hread hwrite,
    hfollows.paired_iff (readChain_paired hread) (pathName_wellPaired hos)]

/-! ## Verifying behind an append -/

theorem numbered_append {index : Nat} {existing : List ChainEntry} {e : ChainEntry} :
    Numbered index (existing ++ [e]) ↔ Numbered index existing ∧ e.seq = index + existing.length := by
  induction existing generalizing index with
  | nil => simp [Numbered]
  | cons x rest ih =>
    rw [List.cons_append, numbered_cons, numbered_cons, ih, and_assoc, List.length_cons]
    have hsum : ((index + 1 : Nat) : Int) + rest.length = index + (rest.length + 1 : Nat) := by
      push_cast
      ring
    rw [hsum]

theorem readChain_congr {d d' : Directory} (h : d.node chainFilename = d'.node chainFilename) :
    readChain rt d = readChain rt d' := by
  rw [readChain, readChain, h]

theorem Directory.file?_congr {d : Directory} {a b : Str} (h : d.locate a = d.locate b)
    (ha : isOsName a = true) (hb : isOsName b = true) : d.file? a = d.file? b := by
  rw [Directory.file?, Directory.file?, Directory.node, Directory.node, if_pos ha, if_pos hb, h]

/-- The write changes the bytes of the chain file. -/
theorem writeEntry_bytes_ne {d : Directory} {e : ChainEntry} {bytes : ByteArray}
    {existing : List ChainEntry} (hread : readChain rt d = .ok existing)
    (hwrite : writeEntry rt d e = .ok (d.write chainFilename bytes)) :
    d.file? chainFilename ≠ some bytes := by
  intro hsame
  obtain ⟨text, htext⟩ := chainText?_of_readChain hread
  obtain ⟨_, _, happended⟩ := writeEntry_ok hwrite
  have hnode : d.node chainFilename = .file bytes := by
    unfold Directory.file? at hsame
    split at hsame
    · cases hsame
      assumption
    · cases hsame
  have hwritten : chainText? (d.write chainFilename bytes) = chainText? d := by
    rw [chainText?, Directory.node_write isOsName_chainFilename, if_pos rfl, chainText?, hnode]
  have hlen := (happended text htext).symm.trans (hwritten.trans htext)
  simp at hlen

/-- No recorded name leads to the chain file, and one leads to the place of
the snapshot only when the bytes there were those of the snapshot. -/
def Undisturbed (d : Directory) (recorded : List ChainEntry) (name : Str) (data : ByteArray) :
    Prop :=
  d.locate name ≠ d.locate chainFilename ∧
    ∀ x ∈ recorded, d.locate x.filename ≠ d.locate chainFilename ∧
      (d.locate x.filename = d.locate name → d.file? x.filename = some data)

/-- A snapshot written into a directory that verifies, and then appended. -/
theorem Verified.append {d : Directory} {suffix name recordedAt : Str} {data bytes : ByteArray}
    {recorded : List ChainEntry} {e : ChainEntry} (hv : Verified H rt d suffix recorded)
    (hos : isOsName name = true) (hfollows : Follows H rt recorded data name recordedAt e)
    (hundisturbed : Undisturbed d recorded name data) :
    Verified H rt ((d.write name data).write chainFilename bytes) suffix (recorded ++ [e]) := by
  obtain ⟨hplace, hrecorded⟩ := hundisturbed
  refine ⟨numbered_append.mpr ⟨hv.numbered, ?_⟩, (linked_append _ _ _ _).mpr ⟨hv.linked, ?_⟩,
    ?_, ?_, ?_⟩
  · rw [hfollows.seq]
    push_cast
    ring
  · exact ⟨hfollows.prev, trivial⟩
  · rw [List.forall_mem_append, List.forall_mem_singleton]
    exact ⟨hv.sealed, hfollows.sealed⟩
  · rw [List.forall_mem_append, List.forall_mem_singleton]
    constructor
    · intro x hx
      obtain ⟨hchain, hsnapshot⟩ := hrecorded x hx
      obtain ⟨old, hold, hdigest⟩ := hv.intact x hx
      have hosx := Directory.isOsName_of_file? hold
      refine ⟨old, ?_, hdigest⟩
      rw [Directory.file?_write hosx, Directory.write_locate, if_neg hchain,
        Directory.file?_write hosx]
      split_ifs with hsame
      · rw [← hsnapshot hsame, hold]
      · exact hold
    · refine ⟨data, ?_, hfollows.digest.symm⟩
      rw [hfollows.filename, Directory.file?_write hos, Directory.write_locate, if_neg hplace,
        Directory.file?_write hos, if_pos rfl]
  · intro n hn hsuffix hne
    rw [Directory.mem_names_write, Directory.mem_names_write] at hn
    rcases hn with (hn | rfl) | hn
    · obtain ⟨x, hx, hname⟩ := hv.chained n hn hsuffix hne
      exact ⟨x, by simp [hx], hname⟩
    · exact ⟨e, by simp, hfollows.filename⟩
    · exact absurd hn hne

/-- What the verification of the extended directory says about the two
writes. -/
theorem undisturbed_of_clean (hH : Function.Injective H.hexdigest) {d d' : Directory}
    {suffix name recordedAt : Str} {data : ByteArray} {recorded existing : List ChainEntry}
    {e : ChainEntry} (hv : Verified H rt d suffix recorded)
    (hrecorded : readChain rt d = .ok recorded) (hsimple : pathName name = name)
    (hexisting : readChain rt (d.write name data) = .ok existing)
    (happend : appendEntry H rt (d.write name data) name recordedAt = .ok (e, d'))
    (hv' : Verified H rt d' suffix (existing ++ [e])) :
    Undisturbed d recorded name data := by
  obtain ⟨hprepare, hwrite⟩ := appendEntry_ok happend
  obtain ⟨hos, data', existing', hdata', _, hfollows⟩ := prepareEntry_ok hprepare
  obtain ⟨_, ⟨bytes, rfl⟩, _⟩ := writeEntry_ok hwrite
  have hne := writeEntry_bytes_ne hexisting hwrite
  have hdata : data' = data := by
    rw [Directory.file?_write hos, if_pos rfl] at hdata'
    exact (Option.some.inj hdata').symm
  subst hdata
  have hplace : d.locate name ≠ d.locate chainFilename := by
    intro hsame
    obtain ⟨after, hafter, hdigest⟩ := hv'.intact e (by simp)
    rw [hfollows.filename, hsimple, Directory.file?_write hos, Directory.write_locate,
      if_pos hsame] at hafter
    rw [hfollows.digest] at hdigest
    rw [Directory.file?_write isOsName_chainFilename, if_pos hsame.symm] at hne
    exact hne (by rw [← hH hdigest, ← hafter])
  have hnode : (d.write name data').node chainFilename = d.node chainFilename := by
    rw [Directory.node_write isOsName_chainFilename, if_neg (Ne.symm hplace)]
  have hsame_chain : existing = recorded := by
    rw [readChain_congr hnode, hrecorded] at hexisting
    cases hexisting
    rfl
  subst hsame_chain
  refine ⟨hplace, fun x hx => ?_⟩
  obtain ⟨before, hbefore, hdigest⟩ := hv.intact x hx
  obtain ⟨after, hafter, hdigest'⟩ := hv'.intact x (by simp [hx])
  have hosx := Directory.isOsName_of_file? hbefore
  obtain rfl : before = after := hH (hdigest.trans hdigest'.symm)
  rw [Directory.file?_write hosx, Directory.write_locate] at hafter
  have hchain : d.locate x.filename ≠ d.locate chainFilename := by
    intro hsame
    rw [if_pos hsame] at hafter
    rw [Directory.file?_write isOsName_chainFilename, if_neg (Ne.symm hplace),
      ← Directory.file?_congr hsame hosx isOsName_chainFilename, hbefore] at hne
    exact hne hafter.symm
  refine ⟨hchain, fun hsame => ?_⟩
  rw [if_neg hchain, Directory.file?_write hosx, if_pos hsame] at hafter
  rw [hbefore, ← hafter]

/-- Reading and verifying are both preserved exactly when the file ended in
blanks, the time stamp is well paired, and the two writes touch no recorded
file. -/
theorem verify_append_iff (hH : Function.Injective H.hexdigest) {d d' : Directory}
    {suffix name recordedAt : Str} {data : ByteArray} {recorded existing : List ChainEntry}
    {e : ChainEntry} (hclean : Clean H rt d suffix) (hrecorded : readChain rt d = .ok recorded)
    (hsimple : pathName name = name)
    (hexisting : readChain rt (d.write name data) = .ok existing)
    (happend : appendEntry H rt (d.write name data) name recordedAt = .ok (e, d')) :
    (readChain rt d' = .ok (existing ++ [e]) ∧ Clean H rt d' suffix) ↔
      TailBlank (d.write name data) ∧ WellPaired recordedAt ∧ Undisturbed d recorded name data := by
  obtain ⟨es, hes, hv⟩ := verifyChain_clean_iff.mp hclean
  obtain rfl : recorded = es := by rw [hrecorded] at hes; cases hes; rfl
  rw [readChain_append_iff hexisting happend, and_assoc]
  refine and_congr_right fun htail => and_congr_right fun hstamp => ?_
  have hread' := (readChain_append_iff hexisting happend).mpr ⟨htail, hstamp⟩
  constructor
  · intro hclean'
    obtain ⟨es', hes', hv'⟩ := verifyChain_clean_iff.mp hclean'
    obtain rfl : existing ++ [e] = es' := by rw [hread'] at hes'; cases hes'; rfl
    exact undisturbed_of_clean hH hv hrecorded hsimple hexisting happend hv'
  · intro hundisturbed
    obtain ⟨hprepare, hwrite⟩ := appendEntry_ok happend
    obtain ⟨hos, data', existing', hdata', hexisting', hfollows⟩ := prepareEntry_ok hprepare
    obtain ⟨_, ⟨bytes, rfl⟩, _⟩ := writeEntry_ok hwrite
    have hdata : data' = data := by
      rw [Directory.file?_write hos, if_pos rfl] at hdata'
      exact (Option.some.inj hdata').symm
    subst hdata
    have hnode : (d.write name data').node chainFilename = d.node chainFilename := by
      rw [Directory.node_write isOsName_chainFilename, if_neg (Ne.symm hundisturbed.1)]
    rw [readChain_congr hnode, hrecorded] at hexisting hexisting'
    cases hexisting
    cases hexisting'
    rw [hsimple] at hfollows
    exact verifyChain_clean_iff.mpr ⟨_, hread', hv.append hos hfollows hundisturbed⟩

/-! ## When the call returns -/

theorem encodeUtf8_of_printable {s : Str} (h : PrintableText s) :
    ∃ bytes, encodeUtf8 s = some bytes :=
  encodeUtf8_isSome fun c hc => isSurrogate_of_isPrintableAscii (h c hc)

variable (H) in
theorem entryDigest_isOk (hdepth : 0 < rt.dumpsDepth none) {seq : Int}
    (hfits : fitsDigits rt.limits seq = true) (recordedAt filename digest prev : Str) :
    ∃ own, entryDigest H rt seq recordedAt filename digest prev = .ok own := by
  have herror : dumpError rt .compact 0
      (DumpStyle.compact.order (entryPayload seq recordedAt filename digest prev)) = none := by
    rw [order_entryPayload, entryPayload, dumpError,
      if_pos (show 0 < rt.dumpsDepth DumpStyle.compact.indent from hdepth)]
    simp [dumpErrorItems, dumpError, hfits]
  obtain ⟨bytes, hbytes⟩ := encodeUtf8_of_printable
    (dumps_printable rt rfl (dumps_of_no_error herror))
  refine ⟨H.hexdigest bytes, bind_eq_ok.mpr ⟨_, dumps_of_no_error herror, ?_⟩⟩
  rw [hbytes]

theorem entryLine_isOk (hdepth : 0 < rt.dumpsDepth none) {e : ChainEntry}
    (hfits : fitsDigits rt.limits e.seq = true) :
    entryLine rt e = .ok (recordText rt e ++ [codePoint '\n']) := by
  have herror : dumpError rt .compact 0 (DumpStyle.compact.order e.asDict) = none := by
    rw [order_asDict, recordOf, dumpError,
      if_pos (show 0 < rt.dumpsDepth DumpStyle.compact.indent from hdepth)]
    simp [dumpErrorItems, dumpError, hfits]
  rw [entryLine, dumps_of_no_error herror]
  rfl

theorem writeEntry_isOk (hdepth : 0 < rt.dumpsDepth none) {d : Directory} {e : ChainEntry}
    (hfits : fitsDigits rt.limits e.seq = true) (hplace : d.node chainFilename ≠ .directory) :
    ∃ d', writeEntry rt d e = .ok d' := by
  obtain ⟨bytes, hbytes⟩ : ∃ bytes,
      encodeUtf8 (recordText rt e ++ [codePoint '\n']) = some bytes := by
    refine encodeUtf8_isSome fun c hc => ?_
    rcases List.mem_append.mp hc with hc | hc
    · exact isSurrogate_of_isPrintableAscii (recordText_printable rt e c hc)
    · rw [List.mem_singleton.mp hc]
      decide
  have hline : reraise (entryLine rt e) = .ok (recordText rt e ++ [codePoint '\n']) := by
    rw [entryLine_isOk hdepth hfits]
    rfl
  cases hn : d.node chainFilename with
  | directory => exact absurd hn hplace
  | absent =>
    refine ⟨d.write chainFilename bytes, bind_eq_ok.mpr ⟨_, hline, ?_⟩⟩
    rw [hn, hbytes]
  | file old =>
    refine ⟨d.write chainFilename (old ++ bytes), bind_eq_ok.mpr ⟨_, hline, ?_⟩⟩
    rw [hn, hbytes]

variable (H) in
theorem prepareEntry_isOk {d : Directory} {path : Str} {data : ByteArray}
    {existing : List ChainEntry} (hdepth : 0 < rt.dumpsDepth none)
    (hfile : d.file? path = some data) (hread : readChain rt d = .ok existing)
    (hfits : fitsDigits rt.limits (existing.length + 1) = true) (recordedAt : Str) :
    ∃ e, prepareEntry H rt d path recordedAt = .ok e ∧ fitsDigits rt.limits e.seq = true := by
  obtain ⟨own, hown⟩ := entryDigest_isOk H hdepth hfits recordedAt (pathName path)
    (H.hexdigest data) (headDigest existing)
  let e : ChainEntry := ⟨existing.length + 1, recordedAt, pathName path, H.hexdigest data,
    headDigest existing, own⟩
  have hnext : nextEntry H rt existing data (pathName path) recordedAt = .ok e := by
    rw [nextEntry, hown]
    rfl
  refine ⟨e, ?_, hfits⟩
  rw [prepareEntry, if_pos (Directory.isOsName_of_file? hfile), hfile]
  exact bind_eq_ok.mpr ⟨existing, hread, by rw [hnext]; rfl⟩

variable (H) in
/-- The call returns when the snapshot is a file, the chain can be read, its
place is no directory, and the next sequence number is within the digit
limit. -/
theorem appendEntry_isOk {d : Directory} {path : Str} {data : ByteArray}
    {existing : List ChainEntry} (hdepth : 0 < rt.dumpsDepth none)
    (hfile : d.file? path = some data) (hread : readChain rt d = .ok existing)
    (hplace : d.node chainFilename ≠ .directory)
    (hfits : fitsDigits rt.limits (existing.length + 1) = true) (recordedAt : Str) :
    ∃ e d', appendEntry H rt d path recordedAt = .ok (e, d') := by
  obtain ⟨e, hprepare, hseq⟩ :=
    prepareEntry_isOk H hdepth hfile hread hfits recordedAt
  obtain ⟨d', hd'⟩ := writeEntry_isOk hdepth hseq hplace
  exact ⟨e, d', bind_eq_ok.mpr ⟨e, hprepare, bind_eq_ok.mpr ⟨d', hd', rfl⟩⟩⟩

/-! ## An interrupted line -/

/-- A record that an interrupted write left without its newline: the next
append is glued to it, and the chain cannot be read any more. -/
theorem readChain_glued {d d' : Directory} {e last : ChainEntry} {text : Str}
    {complete : List ChainEntry} (htext : chainText? d = some text)
    (hcomplete : readLines rt 1 (scanLines text).1 = .ok complete)
    (hlast : readRecord rt (unterminated text) = .ok last)
    (hwrite : writeEntry rt d e = .ok d') :
    readChain rt d' =
      .error (.chainError (.malformed (1 + (scanLines text).1.length) Scan.extraData)) := by
  obtain ⟨_, _, happended⟩ := writeEntry_ok hwrite
  obtain ⟨rest, hrest⟩ := recordText_eq_cons rt e
  -- the record was read with subscripts, so it is an object
  have hobj : ∃ fields, loads rt.limits (unterminated text) = .ok (.obj fields) := by
    obtain ⟨record, hload, hget⟩ := bind_eq_ok.mp hlast
    obtain ⟨seq, hseq, _⟩ := bind_eq_ok.mp hget
    cases record with
    | obj fields => exact ⟨fields, hload⟩
    | null => cases hseq
    | bool b => cases hseq
    | int n => cases hseq
    | float x => cases hseq
    | str s => cases hseq
    | arr elems => cases hseq
  obtain ⟨fields, hfields⟩ := hobj
  have hglued : readRecord rt (unterminated text ++ recordText rt e) = .error Scan.extraData := by
    rw [readRecord, hrest, loads_append_obj hfields _ (by decide)]
    rfl
  rw [readChain_of_text (happended text htext),
    splitlines_append_line text _ (by rw [hrest]; simp) fun c hc =>
      isLineBreak_of_isPrintableAscii (recordText_printable rt e c hc),
    readLines_append, hcomplete]
  show (readLines rt _ [_] >>= _ : Except Failure _) = _
  rw [readLines, if_neg (strip_recordText_ne_nil _ _), hglued]
  rfl

end

/-! ## Directories to evaluate with -/

/-- A directory without files, which lists some names. -/
def sampleDirectory (names : List Str) : Directory where
  locate := id
  content := fun _ => .absent
  names := names

def sampleData : ByteArray := ⟨#[7]⟩

def sampleStamp : Str := "20260101T000000Z"

theorem standard_depth : 0 < Runtime.standard.dumpsDepth none := by decide

theorem clean_sampleDirectory (names : List Str)
    (hnames : ∀ name ∈ names, (lit ".json").isSuffixOf name = false) :
    Clean spelledOut .standard (sampleDirectory names) ".json" := by
  refine verifyChain_clean_iff.mpr ⟨[], rfl, rfl, trivial, by simp, by simp, ?_⟩
  intro name hname hsuffix
  rw [hnames name hname] at hsuffix
  cases hsuffix

/-- The first snapshot of a directory. -/
theorem sample_appended (names : List Str)
    (hnames : ∀ name ∈ names, (lit ".json").isSuffixOf name = false) :
    ∃ e bytes, appendEntry spelledOut .standard
        ((sampleDirectory names).write "a.json" sampleData) "a.json" sampleStamp =
          .ok (e, ((sampleDirectory names).write "a.json" sampleData).write chainFilename bytes) ∧
      Follows spelledOut .standard [] sampleData "a.json" sampleStamp e ∧
      readChain .standard
        (((sampleDirectory names).write "a.json" sampleData).write chainFilename bytes) =
          .ok [e] ∧
      Clean spelledOut .standard
        (((sampleDirectory names).write "a.json" sampleData).write chainFilename bytes) ".json" := by
  have hread : readChain .standard (sampleDirectory names) = .ok [] := rfl
  have hread' : readChain .standard ((sampleDirectory names).write "a.json" sampleData) = .ok [] :=
    rfl
  obtain ⟨e, d', happend⟩ := appendEntry_isOk spelledOut standard_depth
    (show ((sampleDirectory names).write "a.json" sampleData).file? "a.json" = some sampleData
      from rfl) hread' (fun h => by cases h) (by decide) sampleStamp
  obtain ⟨hprepare, hwrite⟩ := appendEntry_ok happend
  obtain ⟨_, data, existing, hdata, hexisting, hfollows⟩ := prepareEntry_ok hprepare
  obtain ⟨_, ⟨bytes, rfl⟩, _⟩ := writeEntry_ok hwrite
  cases hdata
  rw [hread'] at hexisting
  cases hexisting
  obtain ⟨hlog, hclean⟩ := (verify_append_iff spelledOut_injective (clean_sampleDirectory names hnames)
    hread (by decide) hread' happend).mpr
      ⟨fun text htext => (by cases htext; exact Scan.blank_nil),
        PrintableText.wellPaired (by decide), (by decide : lit "a.json" ≠ chainFilename), by simp⟩
  exact ⟨e, bytes, happend, hfollows, hlog, hclean⟩

/-! ## The append preserves the log -/

/-- For every successful `append_entry`: the chain read behind it is the one
read before with the new link at the end, exactly when the chain file ended in
JSON blanks and the time stamp is well paired.  And when the directory
verified before the snapshot was written into it under a name the chain did
not record, both hold of the directory behind the call, the chain and the
verification, exactly when moreover the two writes touched no recorded file. -/
theorem appendEntry_preserves_log (H : Sha256) (rt : Runtime)
    (hH : Function.Injective H.hexdigest) :
    (∀ (d d' : Directory) (path recordedAt : Str) (existing : List ChainEntry) (e : ChainEntry),
      readChain rt d = .ok existing → appendEntry H rt d path recordedAt = .ok (e, d') →
        (readChain rt d' = .ok (existing ++ [e]) ↔ TailBlank d ∧ WellPaired recordedAt)) ∧
    ∀ (d d' : Directory) (suffix name recordedAt : Str) (data : ByteArray)
      (recorded existing : List ChainEntry) (e : ChainEntry),
      Clean H rt d suffix → readChain rt d = .ok recorded → (∀ x ∈ recorded, x.filename ≠ name) →
      pathName name = name → readChain rt (d.write name data) = .ok existing →
      appendEntry H rt (d.write name data) name recordedAt = .ok (e, d') →
        (readChain rt d' = .ok (existing ++ [e]) ∧ Clean H rt d' suffix ↔
          TailBlank (d.write name data) ∧ WellPaired recordedAt ∧
            Undisturbed d recorded name data) := by
  refine ⟨fun d d' path recordedAt existing e hread happend =>
    readChain_append_iff hread happend, ?_⟩
  intro d d' suffix name recordedAt data recorded existing e hclean hrecorded _ hsimple hexisting
    happend
  exact verify_append_iff hH hclean hrecorded hsimple hexisting happend

/-- The first two snapshots of a directory. -/
theorem appendEntry_preserves_log_sample :
    ∃ e d', appendEntry spelledOut .standard
        ((sampleDirectory []).write "a.json" sampleData) "a.json" sampleStamp = .ok (e, d') ∧
      readChain .standard d' = .ok [e] ∧ Clean spelledOut .standard d' ".json" := by
  obtain ⟨e, bytes, happend, _, _, _⟩ := sample_appended [] (by simp)
  have hstart : TailBlank ((sampleDirectory []).write "a.json" sampleData) := by
    intro text htext
    cases htext
    exact Scan.blank_nil
  have hstamp : WellPaired sampleStamp := PrintableText.wellPaired (by decide)
  have hlog := ((appendEntry_preserves_log spelledOut .standard spelledOut_injective).1
    _ _ _ _ [] e rfl happend).mpr ⟨hstart, hstamp⟩
  have hboth := ((appendEntry_preserves_log spelledOut .standard spelledOut_injective).2
    (sampleDirectory []) _ ".json" "a.json" sampleStamp sampleData [] [] e
    (clean_sampleDirectory [] (by simp)) rfl (by simp) (by decide) rfl happend).mpr
      ⟨hstart, hstamp, (by decide : lit "a.json" ≠ chainFilename), by simp⟩
  exact ⟨e, _, happend, hlog, hboth.2⟩

/-- The link of the first snapshot. -/
def interruptedEntry : ChainEntry where
  seq := 1
  recordedAt := sampleStamp
  filename := "a.json"
  digest := spelledOut.hexdigest sampleData
  prev := genesis
  digestOfEntry := (entryDigest spelledOut .standard 1 sampleStamp "a.json"
    (spelledOut.hexdigest sampleData) genesis).toOption.getD []

/-- A directory whose only line lost its newline to an interrupted write. -/
def interruptedDirectory : Directory :=
  ((sampleDirectory []).write "a.json" sampleData).write chainFilename
    ((encodeUtf8 (recordText .standard interruptedEntry)).getD .empty)

theorem sealed_interruptedEntry : Sealed spelledOut .standard interruptedEntry := by
  obtain ⟨own, hown⟩ := entryDigest_isOk spelledOut standard_depth
    (show fitsDigits Runtime.standard.limits 1 = true by decide) sampleStamp "a.json" (spelledOut.hexdigest sampleData) genesis
  have hentry : interruptedEntry.digestOfEntry = own := by
    rw [interruptedEntry, hown]
    rfl
  rw [Sealed, hentry]
  exact hown

theorem interruptedEntry_paired : interruptedEntry.Paired := by
  obtain ⟨_, bytes, _, hown⟩ := entryDigest_ok sealed_interruptedEntry
  exact ⟨PrintableText.wellPaired (by decide), PrintableText.wellPaired (by decide),
    (hexdigest_printable spelledOut sampleData).wellPaired, PrintableText.wellPaired (by decide),
    hown ▸ (hexdigest_printable spelledOut bytes).wellPaired⟩

theorem chainText?_interruptedDirectory :
    chainText? interruptedDirectory = some (recordText .standard interruptedEntry) := by
  have hprint := recordText_printable .standard interruptedEntry
  obtain ⟨bytes, hbytes⟩ := encodeUtf8_of_printable hprint
  rw [chainText?, interruptedDirectory, Directory.node_write isOsName_chainFilename, if_pos rfl,
    hbytes]
  exact readText_encode hbytes fun hr => absurd (hprint _ hr) (by decide)

/-- The chain of `interruptedDirectory` is read and verifies, with its last
line unterminated.  Another snapshot is appended to that line, and the chain
cannot be read any more. -/
theorem append_behind_interrupted_line :
    readChain .standard interruptedDirectory = .ok [interruptedEntry] ∧
      Clean spelledOut .standard interruptedDirectory ".json" ∧
      ∃ e d', appendEntry spelledOut .standard (interruptedDirectory.write "b.json" ⟨#[8]⟩)
          "b.json" sampleStamp = .ok (e, d') ∧
        readChain .standard d' = .error (.chainError (.malformed 1 Scan.extraData)) ∧
        ¬Clean spelledOut .standard d' ".json" := by
  have htext := chainText?_interruptedDirectory
  have hlines := scanLines_of_no_break fun c hc =>
    isLineBreak_of_isPrintableAscii (recordText_printable .standard interruptedEntry c hc)
  have hrecord : readRecord .standard (recordText .standard interruptedEntry) =
      .ok interruptedEntry := by
    have hfits : fitsDigits Runtime.standard.limits interruptedEntry.seq = true := by decide
    have h := readRecord_recordText interruptedEntry_paired hfits Scan.blank_nil
    rwa [List.nil_append] at h
  have hread : readChain .standard interruptedDirectory = .ok [interruptedEntry] := by
    obtain ⟨rest, hrest⟩ := recordText_eq_cons .standard interruptedEntry
    rw [readChain_of_text htext, splitlines, hlines, List.nil_append, if_neg (by rw [hrest]; simp)]
    exact readLines_singleton.mpr
      (Or.inr ⟨strip_recordText_ne_nil [] _, interruptedEntry, hrecord, rfl⟩)
  have hnode : (interruptedDirectory.write "b.json" ⟨#[8]⟩).node chainFilename =
      interruptedDirectory.node chainFilename := rfl
  have hread' : readChain .standard (interruptedDirectory.write "b.json" ⟨#[8]⟩) =
      .ok [interruptedEntry] := (readChain_congr hnode).trans hread
  obtain ⟨e, d', happend⟩ := appendEntry_isOk spelledOut standard_depth
    (show (interruptedDirectory.write "b.json" ⟨#[8]⟩).file? "b.json" = some ⟨#[8]⟩ from rfl)
    hread' (fun h => by rw [hnode] at h; cases h) (by decide) sampleStamp
  have hglued : readChain .standard d' =
      .error (.chainError (.malformed 1 Scan.extraData)) := by
    have htext' : chainText? (interruptedDirectory.write "b.json" ⟨#[8]⟩) =
        some (recordText .standard interruptedEntry) := by
      rw [← htext, chainText?, hnode, chainText?]
    have hcomplete : readLines .standard 1 (scanLines (recordText .standard interruptedEntry)).1 =
        .ok [] := by
      rw [hlines]
      rfl
    have h := readChain_glued htext' hcomplete (by rw [unterminated, hlines]; exact hrecord)
      (appendEntry_ok happend).2
    rwa [hlines] at h
  refine ⟨hread, ?_, e, d', happend, hglued, ?_⟩
  · refine verifyChain_clean_iff.mpr ⟨_, hread, rfl, ⟨rfl, trivial⟩, ?_, ?_, ?_⟩
    · exact List.forall_mem_singleton.mpr sealed_interruptedEntry
    · exact List.forall_mem_singleton.mpr ⟨sampleData, rfl, rfl⟩
    · intro name hname _ hne
      have hmem : name = lit "a.json" ∨ name = chainFilename := by
        simpa [interruptedDirectory, sampleDirectory, Directory.mem_names_write] using hname
      exact ⟨interruptedEntry, by simp, (hmem.resolve_right hne).symm⟩
  · intro hclean
    obtain ⟨es, hes, _⟩ := verifyChain_clean_iff.mp hclean
    rw [hglued] at hes
    cases hes

end DevRepro.Snapshots
