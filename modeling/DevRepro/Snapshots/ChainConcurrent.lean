import DevRepro.Lib.ReadAppend
import DevRepro.Snapshots.ChainAppend

/-!
# Saves that run at the same time

`append_entry` reads the chain, computes the next link, and appends its line.
Nothing keeps another process from appending in between.  Here a `Session` is
a number of calls on one directory, each of which takes its two steps at some
point of a schedule.

`session_simulates` reads a session as a run of `Lib.ReadAppend`, with the
entries of the chain as the log.  `interleaved_appends` is the result: no entry
is lost in any schedule, and the directory verifies exactly when no append came
between the read and the append of one call.
-/

namespace DevRepro.Snapshots

open DevRepro.Python
open DevRepro.Lib.HashChain
open DevRepro.Lib.ReadAppend

/-! ## The calls and their steps -/

/-- A snapshot that was saved, and the time stamp of its call. -/
structure Save where
  name : Str
  data : ByteArray
  recordedAt : Str

theorem call_mem (calls : List Save) (i : Fin calls.length) : calls[i] ∈ calls :=
  List.getElem_mem _

/-- The directory with every snapshot file written. -/
def Directory.writeAll (d : Directory) (calls : List Save) : Directory :=
  calls.foldl (fun d c => d.write c.name c.data) d

/-- The directory, and where each call stands. -/
structure Session (n : Nat) where
  dir : Directory
  phase : Fin n → Phase ChainEntry

section Steps

variable (H : Sha256) (rt : Runtime) (calls : List Save)

/-- One step of one call: `none` when it is not its turn, or when it raises. -/
def Session.step (s : Session calls.length) :
    Event (Fin calls.length) → Option (Session calls.length)
  | .read i =>
    match s.phase i, prepareEntry H rt s.dir calls[i].name calls[i].recordedAt with
    | .waiting, .ok e => some { s with phase := Function.update s.phase i (.ready e) }
    | _, _ => none
  | .append i =>
    match s.phase i with
    | .ready e =>
      match writeEntry rt s.dir e with
      | .ok d' => some ⟨d', Function.update s.phase i (.finished e)⟩
      | .error _ => none
    | _ => none

/-- The steps of a schedule. -/
def Session.run (s : Session calls.length) (es : List (Event (Fin calls.length))) :
    Option (Session calls.length) :=
  es.foldlM (Session.step H rt calls) s

end Steps

/-- No call has begun. -/
def Session.start (d : Directory) (n : Nat) : Session n := ⟨d, fun _ => .waiting⟩

/-! ## The files of a session -/

/-- Snapshot files that are new to a directory, each in a place of its own,
under well-paired time stamps. -/
structure NewSnapshots (d : Directory) (calls : List Save) : Prop where
  osName : ∀ c ∈ calls, isOsName c.name = true
  simple : ∀ c ∈ calls, pathName c.name = c.name
  stamp : ∀ c ∈ calls, WellPaired c.recordedAt
  absent : ∀ c ∈ calls, d.node c.name = .absent
  notChain : ∀ c ∈ calls, d.locate c.name ≠ d.locate chainFilename
  distinct : (calls.map fun c => d.locate c.name).Nodup

theorem Directory.writeAll_locate (d : Directory) (calls : List Save) :
    (d.writeAll calls).locate = d.locate := by
  induction calls generalizing d with
  | nil => rfl
  | cons c rest ih => exact ih (d.write c.name c.data)

theorem Directory.writeAll_node (d : Directory) (calls : List Save) {name : Str}
    (hos : isOsName name = true) (h : ∀ c ∈ calls, d.locate name ≠ d.locate c.name) :
    (d.writeAll calls).node name = d.node name := by
  induction calls generalizing d with
  | nil => rfl
  | cons c rest ih =>
    rw [List.forall_mem_cons] at h
    have hrest : (d.writeAll (c :: rest)).node name = (d.write c.name c.data).node name :=
      ih (d.write c.name c.data) h.2
    rw [hrest, Directory.node_write hos, if_neg h.1]

theorem Directory.writeAll_file? (d : Directory) (calls : List Save) {name : Str}
    (hos : isOsName name = true) (h : ∀ c ∈ calls, d.locate name ≠ d.locate c.name) :
    (d.writeAll calls).file? name = d.file? name := by
  rw [Directory.file?, Directory.writeAll_node d calls hos h, Directory.file?]

theorem Directory.writeAll_file?_of_mem (d : Directory) (calls : List Save)
    (hdistinct : (calls.map fun c => d.locate c.name).Nodup) {c : Save} (hc : c ∈ calls)
    (hos : isOsName c.name = true) : (d.writeAll calls).file? c.name = some c.data := by
  induction calls generalizing d with
  | nil => cases hc
  | cons first rest ih =>
    rw [List.map_cons, List.nodup_cons] at hdistinct
    rcases List.mem_cons.mp hc with rfl | hc
    · have hother : ∀ x ∈ rest, d.locate c.name ≠ d.locate x.name := by
        intro x hx hsame
        exact hdistinct.1 (hsame ▸ List.mem_map_of_mem hx)
      have hrest : (d.writeAll (c :: rest)).file? c.name = (d.write c.name c.data).file? c.name :=
        Directory.writeAll_file? (d.write c.name c.data) rest hos hother
      rw [hrest, Directory.file?_write hos, if_pos rfl]
    · exact ih (d.write first.name first.data) hdistinct.2 hc

theorem Directory.mem_names_writeAll (d : Directory) (calls : List Save) {name : Str} :
    name ∈ (d.writeAll calls).names ↔ name ∈ d.names ∨ ∃ c ∈ calls, name = c.name := by
  induction calls generalizing d with
  | nil => simp [Directory.writeAll]
  | cons c rest ih =>
    have hrest : name ∈ (d.writeAll (c :: rest)).names ↔
        name ∈ (d.write c.name c.data).names ∨ ∃ x ∈ rest, name = x.name :=
      ih (d.write c.name c.data)
    rw [hrest, Directory.mem_names_write, List.exists_mem_cons_iff, or_assoc]

theorem Directory.write_write (d : Directory) (name : Str) (a b : ByteArray) :
    (d.write name a).write name b = d.write name b := by
  have hmem : name ∈ (d.write name a).names := Directory.mem_names_write.mpr (Or.inr rfl)
  have hnames : ((d.write name a).write name b).names = (d.write name b).names := if_pos hmem
  exact Directory.ext rfl (Function.update_idem _ _ _) hnames

section

variable {H : Sha256} {rt : Runtime} {calls : List Save}

/-! ## A session is a run on the log -/

/-- The link that a call makes from the entries it has read. -/
def Makes (H : Sha256) (rt : Runtime) (calls : List Save) (i : Fin calls.length)
    (seen : List ChainEntry) (e : ChainEntry) : Prop :=
  Follows H rt seen calls[i].data calls[i].name calls[i].recordedAt e ∧ e.Paired

/-- A link that has its sequence number and its predecessor behind a chain. -/
def Fits (entries : List ChainEntry) (e : ChainEntry) : Prop :=
  e.seq = entries.length + 1 ∧ e.prev = headDigest entries

/-- A link fits behind the entries it was made from, and the sequence number
gives it away behind more. -/
theorem fits_iff (i : Fin calls.length) (seen more : List ChainEntry) (e : ChainEntry)
    (h : Makes H rt calls i seen e) : Fits (seen ++ more) e ↔ more = [] := by
  constructor
  · rintro ⟨hseq, _⟩
    rw [h.1.seq, List.length_append] at hseq
    push_cast at hseq
    exact List.eq_nil_of_length_eq_zero (by omega)
  · rintro rfl
    rw [List.append_nil]
    exact ⟨h.1.seq, h.1.prev⟩

/-- What a session and a run on the log have in common: the session has
written nothing but the chain file, and its entries are the log. -/
structure Simulates (rt : Runtime) (first : Directory) {n : Nat} (s : Session n)
    (t : State (Fin n) ChainEntry) : Prop where
  phase : t.phase = s.phase
  log : readChain rt s.dir = .ok t.log
  tail : TailBlank s.dir
  dir : s.dir = first ∨ ∃ bytes, s.dir = first.write chainFilename bytes

/-- Outside the chain file a session leaves the directory as it was. -/
theorem Simulates.file? {first : Directory} {n : Nat} {s : Session n}
    {t : State (Fin n) ChainEntry} (h : Simulates rt first s t) {name : Str}
    (hos : isOsName name = true) (hne : first.locate name ≠ first.locate chainFilename) :
    s.dir.file? name = first.file? name := by
  rcases h.dir with hdir | ⟨bytes, hdir⟩
  · rw [hdir]
  · rw [hdir, Directory.file?_write hos, if_neg hne]

theorem tailBlank_writeEntry {d d' : Directory} {e : ChainEntry} {entries : List ChainEntry}
    (hread : readChain rt d = .ok entries) (hwrite : writeEntry rt d e = .ok d') :
    TailBlank d' := by
  obtain ⟨text, htext⟩ := chainText?_of_readChain hread
  obtain ⟨_, _, happended⟩ := writeEntry_ok hwrite
  obtain ⟨rest, hrest⟩ := recordText_eq_cons rt e
  intro text' htext'
  rw [happended text htext] at htext'
  cases htext'
  rw [unterminated, scanLines_append_line text _ (by rw [hrest]; simp) fun c hc =>
    isLineBreak_of_isPrintableAscii (recordText_printable rt e c hc)]
  intro c hc
  cases hc

variable {first : Directory} {s s' : Session calls.length}
  {t : State (Fin calls.length) ChainEntry}

/-- The first step of a call reads the log. -/
theorem Simulates.read (h : Simulates rt first s t) {i : Fin calls.length}
    (hos : isOsName calls[i].name = true) (hsimple : pathName calls[i].name = calls[i].name)
    (hstamp : WellPaired calls[i].recordedAt)
    (hne : first.locate calls[i].name ≠ first.locate chainFilename)
    (hfile : first.file? calls[i].name = some calls[i].data)
    (hstep : Session.step H rt calls s (.read i) = some s') :
    ∃ t', Step (Makes H rt calls) t (.read i) t' ∧ Simulates rt first s' t' := by
  simp only [Session.step] at hstep
  split at hstep
  · rename_i e hwaiting hprepare
    cases hstep
    obtain ⟨_, data, existing, hdata, hread, hfollows⟩ := prepareEntry_ok hprepare
    rw [h.file? hos hne, hfile] at hdata
    cases hdata
    obtain rfl : existing = t.log := by
      rw [h.log] at hread
      cases hread
      rfl
    rw [hsimple] at hfollows
    have hpaired : e.Paired := (hfollows.paired_iff (readChain_paired h.log)
      (hsimple ▸ pathName_wellPaired hos)).mpr hstamp
    refine ⟨t.setPhase i (.ready e), .read ?_ ⟨hfollows, hpaired⟩, ?_⟩
    · rw [h.phase]
      exact hwaiting
    · exact ⟨by rw [State.setPhase, h.phase], h.log, h.tail, h.dir⟩
  · cases hstep

/-- The second step of a call appends to the log. -/
theorem Simulates.append (h : Simulates rt first s t) {i : Fin calls.length}
    (hready : ∀ e, t.phase i = .ready e → e.Paired)
    (hstep : Session.step H rt calls s (.append i) = some s') :
    ∃ t', Step (Makes H rt calls) t (.append i) t' ∧ Simulates rt first s' t' := by
  simp only [Session.step] at hstep
  split at hstep
  · rename_i e hphase
    split at hstep
    · rename_i d' hwrite
      cases hstep
      have hphase' : t.phase i = .ready e := by rw [h.phase, hphase]
      refine ⟨(t.push e).setPhase i (.finished e), .append hphase', ?_, ?_, ?_, ?_⟩
      · rw [State.setPhase, State.push_phase, h.phase]
      · exact (readChain_writeEntry_iff h.log hwrite).mpr ⟨h.tail, hready e hphase'⟩
      · exact tailBlank_writeEntry h.log hwrite
      · obtain ⟨_, ⟨bytes, rfl⟩, _⟩ := writeEntry_ok hwrite
        rcases h.dir with hdir | ⟨old, hdir⟩
        · exact Or.inr ⟨bytes, by rw [hdir]⟩
        · exact Or.inr ⟨bytes, by rw [hdir, Directory.write_write]⟩
    · cases hstep
  · cases hstep

/-- A session from a directory whose chain can be read is a run on the log. -/
theorem session_simulates {d : Directory} {recorded : List ChainEntry}
    (hread : readChain rt d = .ok recorded) (htail : TailBlank d) (hnew : NewSnapshots d calls)
    (es : List (Event (Fin calls.length))) (s : Session calls.length)
    (hrun : Session.run H rt calls (Session.start (d.writeAll calls) calls.length) es = some s) :
    ∃ t, Run (Makes H rt calls) (start recorded) es t ∧ Simulates rt (d.writeAll calls) s t := by
  have hnode : (d.writeAll calls).node chainFilename = d.node chainFilename :=
    Directory.writeAll_node d calls isOsName_chainFilename fun c hc => (hnew.notChain c hc).symm
  induction es using List.reverseRecOn generalizing s with
  | nil =>
    cases hrun
    refine ⟨start recorded, .nil, rfl, ?_, ?_, Or.inl rfl⟩
    · exact (readChain_congr hnode).trans hread
    · intro text htext
      exact htail text (by rw [chainText?, ← hnode]; exact htext)
  | append_singleton es e ih =>
    rw [Session.run, List.foldlM_append] at hrun
    obtain ⟨mid, hmid, hstep⟩ := Option.bind_eq_some_iff.mp hrun
    have hstep : Session.step H rt calls mid e = some s := by simpa using hstep
    obtain ⟨t, ht, hsim⟩ := ih mid hmid
    cases e with
    | read i =>
      have hi : calls[i] ∈ calls := call_mem calls i
      have hos := hnew.osName _ hi
      obtain ⟨t', hstep', hsim'⟩ := hsim.read hos (hnew.simple _ hi) (hnew.stamp _ hi)
        (by rw [Directory.writeAll_locate]; exact hnew.notChain _ hi)
        (Directory.writeAll_file?_of_mem d calls hnew.distinct hi hos) hstep
      exact ⟨t', .snoc ht hstep', hsim'⟩
    | append i =>
      obtain ⟨appended, hinv⟩ := ht.invariant fits_iff
      have hready : ∀ e, t.phase i = .ready e → e.Paired := by
        intro e he
        obtain ⟨_, _, _, _, hmade, _⟩ := hinv.ready i e he
        exact hmade.2
      obtain ⟨t', hstep', hsim'⟩ := hsim.append hready hstep
      exact ⟨t', .snoc ht hstep', hsim'⟩

/-! ## Verifying behind a session -/

/-- The sequence numbers and the links go on exactly when every new link is in
its place. -/
theorem numbered_linked_append_iff {log rest : List ChainEntry}
    (hn : Numbered 1 log) (hl : Linked chainScheme genesis log) :
    Numbered 1 (log ++ rest) ∧ Linked chainScheme genesis (log ++ rest) ↔
      InPlace Fits log rest := by
  induction rest using List.reverseRecOn with
  | nil => simp [hn, hl, InPlace]
  | append_singleton rest e ih =>
    have hseq : e.seq = (1 : Nat) + ((log ++ rest).length : Int) ↔
        e.seq = (log ++ rest).length + 1 := by
      constructor <;> intro h <;> rw [h] <;> push_cast <;> ring
    have hlink : Linked chainScheme (head chainScheme genesis (log ++ rest)) [e] ↔
        e.prev = headDigest (log ++ rest) := by
      rw [linked_cons, headDigest_eq_head]
      exact and_iff_left trivial
    rw [← List.append_assoc, numbered_append, linked_append, hseq, hlink, inPlace_snoc, ← ih, Fits]
    tauto

/-- No recorded file is disturbed by the snapshots that are new. -/
theorem NewSnapshots.disjoint {d : Directory} (hnew : NewSnapshots d calls) {name : Str}
    {bytes : ByteArray} (hfile : d.file? name = some bytes) :
    ∀ c ∈ calls, d.locate name ≠ d.locate c.name := by
  intro c hc hsame
  rw [Directory.file?_congr hsame (Directory.isOsName_of_file? hfile) (hnew.osName c hc),
    Directory.file?, hnew.absent c hc] at hfile
  cases hfile

/-- The files of a session, when every call has finished. -/
theorem verified_iff {d : Directory} {suffix : Str} {recorded appended : List ChainEntry}
    {es : List (Event (Fin calls.length))}
    (hv : Verified H rt d suffix recorded)
    (hchain : ∀ x ∈ recorded, d.locate x.filename ≠ d.locate chainFilename)
    (hnew : NewSnapshots d calls) (hsim : Simulates rt (d.writeAll calls) s t)
    (hinv : Invariant (Makes H rt calls) Fits recorded es t appended)
    (hdone : ∀ i, ∃ e, s.phase i = .finished e) :
    Verified H rt s.dir suffix (recorded ++ appended) ↔ ¬Overlapping es := by
  have hlocate := Directory.writeAll_locate d calls
  rw [← hinv.inPlace, ← numbered_linked_append_iff hv.numbered hv.linked]
  constructor
  · exact fun h => ⟨h.numbered, h.linked⟩
  · rintro ⟨hn, hl⟩
    refine ⟨hn, hl, ?_, ?_, ?_⟩
    · rw [List.forall_mem_append]
      refine ⟨hv.sealed, fun e he => ?_⟩
      obtain ⟨i, hi⟩ := hinv.mem e he
      obtain ⟨_, seen, hmade⟩ := hinv.finished i e hi
      exact hmade.1.sealed
    · rw [List.forall_mem_append]
      constructor
      · intro x hx
        obtain ⟨bytes, hbytes, hdigest⟩ := hv.intact x hx
        have hos := Directory.isOsName_of_file? hbytes
        refine ⟨bytes, ?_, hdigest⟩
        rw [hsim.file? hos (by rw [hlocate]; exact hchain x hx),
          Directory.writeAll_file? d calls hos (hnew.disjoint hbytes), hbytes]
      · intro e he
        obtain ⟨i, hphase⟩ := hinv.mem e he
        obtain ⟨_, seen, hmade⟩ := hinv.finished i e hphase
        have hi : calls[i] ∈ calls := call_mem calls i
        have hos := hnew.osName _ hi
        refine ⟨calls[i].data, ?_, hmade.1.digest.symm⟩
        rw [hmade.1.filename, hsim.file? hos (by rw [hlocate]; exact hnew.notChain _ hi),
          Directory.writeAll_file?_of_mem d calls hnew.distinct hi hos]
    · intro name hname hsuffix hne
      have hname' : name ∈ (d.writeAll calls).names := by
        rcases hsim.dir with hdir | ⟨bytes, hdir⟩
        · exact hdir ▸ hname
        · rw [hdir, Directory.mem_names_write] at hname
          exact hname.resolve_right hne
      rcases (Directory.mem_names_writeAll d calls).mp hname' with hold | ⟨c, hc, rfl⟩
      · obtain ⟨x, hx, hxname⟩ := hv.chained name hold hsuffix hne
        exact ⟨x, by simp [hx], hxname⟩
      · obtain ⟨k, hk, rfl⟩ := List.getElem_of_mem hc
        obtain ⟨e, he⟩ := hdone ⟨k, hk⟩
        obtain ⟨hmem, seen, hmade⟩ := hinv.finished ⟨k, hk⟩ e (by rw [hsim.phase]; exact he)
        exact ⟨e, by simp [hmem], hmade.1.filename⟩

/-- The directory behind a session verifies exactly when no append came
between the read and the append of one call. -/
theorem clean_iff_not_overlapping {d : Directory} {suffix : Str} {recorded : List ChainEntry}
    {es : List (Event (Fin calls.length))} (hclean : Clean H rt d suffix)
    (hread : readChain rt d = .ok recorded) (htail : TailBlank d)
    (hchain : ∀ x ∈ recorded, d.locate x.filename ≠ d.locate chainFilename)
    (hnew : NewSnapshots d calls)
    (hrun : Session.run H rt calls (Session.start (d.writeAll calls) calls.length) es = some s)
    (hdone : ∀ i, ∃ e, s.phase i = .finished e) :
    Clean H rt s.dir suffix ↔ ¬Overlapping es := by
  obtain ⟨t, ht, hsim⟩ := session_simulates hread htail hnew es s hrun
  obtain ⟨appended, hinv⟩ := ht.invariant fits_iff
  have hread' : readChain rt s.dir = .ok (recorded ++ appended) := hinv.log_eq ▸ hsim.log
  obtain ⟨es', hes', hv⟩ := verifyChain_clean_iff.mp hclean
  obtain rfl : recorded = es' := by rw [hread] at hes'; cases hes'; rfl
  rw [← verified_iff hv hchain hnew hsim hinv hdone, verifyChain_clean_iff]
  constructor
  · rintro ⟨entries, hentries, hverified⟩
    rw [hread'] at hentries
    cases hentries
    exact hverified
  · exact fun h => ⟨_, hread', h⟩

/-- No entry is lost in a session. -/
theorem session_entries {d : Directory} {recorded : List ChainEntry}
    {es : List (Event (Fin calls.length))} (hread : readChain rt d = .ok recorded)
    (htail : TailBlank d) (hnew : NewSnapshots d calls)
    (hrun : Session.run H rt calls (Session.start (d.writeAll calls) calls.length) es = some s) :
    ∃ appended, readChain rt s.dir = .ok (recorded ++ appended) ∧
      (∀ e ∈ appended, ∃ i, s.phase i = .finished e) ∧
      ∀ i e, s.phase i = .finished e → e ∈ appended ∧ e.filename = calls[i].name := by
  obtain ⟨t, ht, hsim⟩ := session_simulates hread htail hnew es s hrun
  obtain ⟨appended, hinv⟩ := ht.invariant fits_iff
  refine ⟨appended, hinv.log_eq ▸ hsim.log, fun e he => ?_, fun i e he => ?_⟩
  · obtain ⟨i, hi⟩ := hinv.mem e he
    exact ⟨i, by rw [← hsim.phase]; exact hi⟩
  · obtain ⟨hmem, seen, hmade⟩ := hinv.finished i e (by rw [hsim.phase]; exact he)
    exact ⟨hmem, hmade.1.filename⟩

end

/-! ## Two calls -/

def sampleSaves : List Save :=
  [⟨"a.json", sampleData, sampleStamp⟩, ⟨"b.json", ⟨#[8]⟩, sampleStamp⟩]

theorem newSnapshots_sampleSaves : NewSnapshots (sampleDirectory []) sampleSaves where
  osName := by decide
  simple := by decide
  stamp := by
    simp only [sampleSaves, List.forall_mem_cons]
    exact ⟨PrintableText.wellPaired (by decide), PrintableText.wellPaired (by decide), by simp⟩
  absent := by
    simp only [sampleSaves, List.forall_mem_cons]
    exact ⟨rfl, rfl, by simp⟩
  notChain := by decide
  distinct := by decide

theorem tailBlank_sampleDirectory (names : List Str) : TailBlank (sampleDirectory names) := by
  intro text htext
  cases htext
  exact Scan.blank_nil

/-- Behind a write the place of the chain file is a file. -/
theorem writeEntry_place {rt : Runtime} {d d' : Directory} {e : ChainEntry}
    (h : writeEntry rt d e = .ok d') : d'.node chainFilename ≠ .directory := by
  obtain ⟨_, ⟨bytes, rfl⟩, _⟩ := writeEntry_ok h
  rw [Directory.node_write isOsName_chainFilename, if_pos rfl]
  exact fun hplace => by cases hplace

theorem Session.run_read {H : Sha256} {rt : Runtime} {calls : List Save}
    {s : Session calls.length} {i : Fin calls.length} {e : ChainEntry}
    (hphase : s.phase i = .waiting)
    (hprepare : prepareEntry H rt s.dir calls[i].name calls[i].recordedAt = .ok e)
    (es : List (Event (Fin calls.length))) :
    Session.run H rt calls s (.read i :: es) =
      Session.run H rt calls ⟨s.dir, Function.update s.phase i (.ready e)⟩ es := by
  rw [Session.run, List.foldlM_cons, Session.step, hphase, hprepare]
  rfl

theorem Session.run_append {H : Sha256} {rt : Runtime} {calls : List Save}
    {s : Session calls.length} {i : Fin calls.length} {e : ChainEntry} {d' : Directory}
    (hphase : s.phase i = .ready e) (hwrite : writeEntry rt s.dir e = .ok d')
    (es : List (Event (Fin calls.length))) :
    Session.run H rt calls s (.append i :: es) =
      Session.run H rt calls ⟨d', Function.update s.phase i (.finished e)⟩ es := by
  rw [Session.run, List.foldlM_cons]
  simp only [Session.step, hphase, hwrite]
  rfl

def firstSave : Fin sampleSaves.length := ⟨0, by decide⟩
def secondSave : Fin sampleSaves.length := ⟨1, by decide⟩

/-- Both calls read before either appends. -/
def overlappedSchedule : List (Event (Fin sampleSaves.length)) :=
  [.read firstSave, .read secondSave, .append firstSave, .append secondSave]

/-- One call after the other. -/
def serialSchedule : List (Event (Fin sampleSaves.length)) :=
  [.read firstSave, .append firstSave, .read secondSave, .append secondSave]

theorem not_overlapping_serialSchedule : ¬Overlapping serialSchedule := by
  rw [show serialSchedule = ((([] ++ [.read firstSave]) ++ [.append firstSave]) ++
    [.read secondSave]) ++ [.append secondSave] from rfl]
  simp only [overlapping_snoc, behind_snoc]
  simp [not_overlapping_nil, not_behind_nil, firstSave, secondSave]

theorem sample_phase (f : Fin sampleSaves.length → Phase ChainEntry) (a b : ChainEntry)
    (h0 : f firstSave = .finished a) (h1 : f secondSave = .finished b)
    (i : Fin sampleSaves.length) : ∃ e, f i = .finished e := by
  obtain ⟨k, hk⟩ := i
  have hlt : k < 2 := hk
  interval_cases k
  · exact ⟨a, h0⟩
  · exact ⟨b, h1⟩

theorem overlapped_run :
    ∃ s, Session.run spelledOut .standard sampleSaves
        (Session.start ((sampleDirectory []).writeAll sampleSaves) sampleSaves.length)
        overlappedSchedule = some s ∧ ∀ i, ∃ e, s.phase i = .finished e := by
  let d := (sampleDirectory []).writeAll sampleSaves
  obtain ⟨a, ha, hfa⟩ := prepareEntry_isOk spelledOut standard_depth
    (show d.file? "a.json" = some sampleData from rfl) (show readChain .standard d = .ok [] from rfl)
    (by decide) sampleStamp
  obtain ⟨b, hb, hfb⟩ := prepareEntry_isOk spelledOut standard_depth
    (show d.file? "b.json" = some ⟨#[8]⟩ from rfl) (show readChain .standard d = .ok [] from rfl)
    (by decide) sampleStamp
  obtain ⟨d1, hd1⟩ := writeEntry_isOk standard_depth hfa
    (show d.node chainFilename ≠ .directory from fun h => by cases h)
  obtain ⟨d2, hd2⟩ := writeEntry_isOk standard_depth hfb (writeEntry_place hd1)
  refine ⟨⟨d2, Function.update (Function.update (Function.update (Function.update
    (fun _ => .waiting) firstSave (.ready a)) secondSave (.ready b)) firstSave (.finished a))
    secondSave (.finished b)⟩, ?_, ?_⟩
  · rw [overlappedSchedule, Session.run_read rfl ha, Session.run_read rfl hb,
      Session.run_append rfl hd1, Session.run_append rfl hd2]
    rfl
  · exact sample_phase _ a b rfl rfl

theorem serial_run :
    ∃ s, Session.run spelledOut .standard sampleSaves
        (Session.start ((sampleDirectory []).writeAll sampleSaves) sampleSaves.length)
        serialSchedule = some s ∧ ∀ i, ∃ e, s.phase i = .finished e := by
  let d := (sampleDirectory []).writeAll sampleSaves
  have hread : readChain .standard d = .ok [] := rfl
  obtain ⟨a, ha, hfa⟩ := prepareEntry_isOk spelledOut standard_depth
    (show d.file? "a.json" = some sampleData from rfl) hread (by decide) sampleStamp
  obtain ⟨d1, hd1⟩ := writeEntry_isOk standard_depth hfa
    (show d.node chainFilename ≠ .directory from fun h => by cases h)
  have hread1 : readChain .standard d1 = .ok [a] := by
    obtain ⟨_, _, _, _, hex, hfollows⟩ := prepareEntry_ok ha
    rw [hread] at hex
    cases hex
    refine (readChain_writeEntry_iff hread hd1).mpr ⟨?_, ?_⟩
    · intro text htext
      cases htext
      exact Scan.blank_nil
    · exact (hfollows.paired_iff (by simp) (PrintableText.wellPaired (by decide))).mpr
        (PrintableText.wellPaired (by decide))
  obtain ⟨b, hb, hfb⟩ := prepareEntry_isOk spelledOut standard_depth
    (show d1.file? "b.json" = some ⟨#[8]⟩ by
      obtain ⟨_, ⟨bytes, rfl⟩, _⟩ := writeEntry_ok hd1
      rfl) hread1 (show fitsDigits Runtime.standard.limits 2 = true by decide) sampleStamp
  obtain ⟨d2, hd2⟩ := writeEntry_isOk standard_depth hfb (writeEntry_place hd1)
  refine ⟨⟨d2, Function.update (Function.update (Function.update (Function.update
    (fun _ => .waiting) firstSave (.ready a)) firstSave (.finished a)) secondSave (.ready b))
    secondSave (.finished b)⟩, ?_, ?_⟩
  · rw [serialSchedule, Session.run_read rfl ha, Session.run_append rfl hd1,
      Session.run_read rfl hb, Session.run_append rfl hd2]
    rfl
  · exact sample_phase _ a b rfl rfl

/-- Both calls read the empty chain before either appends.  Both links claim
to be the first one, and the directory does not verify. -/
theorem overlapped_appends_break_chain :
    Clean spelledOut .standard (sampleDirectory []) ".json" ∧
      ∃ s, Session.run spelledOut .standard sampleSaves
          (Session.start ((sampleDirectory []).writeAll sampleSaves) sampleSaves.length)
          overlappedSchedule = some s ∧
        (∀ i, ∃ e, s.phase i = .finished e) ∧
        ¬Clean spelledOut .standard s.dir ".json" := by
  have hstart := clean_sampleDirectory [] (by simp)
  obtain ⟨s, hrun, hdone⟩ := overlapped_run
  refine ⟨hstart, s, hrun, hdone, fun hclean => ?_⟩
  refine (clean_iff_not_overlapping hstart rfl (tailBlank_sampleDirectory []) (by simp)
    newSnapshots_sampleSaves hrun hdone).mp hclean ?_
  exact ⟨secondSave, firstSave, [.read firstSave], [.append firstSave], [], rfl, by simp⟩

/-- For every starting directory that verifies, whose chain file ends in
blanks and records no name that leads to the chain file itself, and for every
schedule of any number of calls for new snapshot files: once all calls have
finished the chain holds the entries it held before and the entry of every
call, and the directory verifies exactly when no append came between the read
and the append of one call. -/
theorem interleaved_appends (H : Sha256) (rt : Runtime) (d : Directory) (suffix : Str)
    (recorded : List ChainEntry) (calls : List Save)
    (es : List (Event (Fin calls.length))) (s : Session calls.length)
    (hclean : Clean H rt d suffix) (hread : readChain rt d = .ok recorded) (htail : TailBlank d)
    (hchain : ∀ x ∈ recorded, d.locate x.filename ≠ d.locate chainFilename)
    (hnew : NewSnapshots d calls)
    (hrun : Session.run H rt calls (Session.start (d.writeAll calls) calls.length) es = some s)
    (hdone : ∀ i, ∃ e, s.phase i = .finished e) :
    (∃ appended, readChain rt s.dir = .ok (recorded ++ appended) ∧
      (∀ e ∈ appended, ∃ i, s.phase i = .finished e) ∧
      ∀ i e, s.phase i = .finished e → e ∈ appended ∧ e.filename = calls[i].name) ∧
    (Clean H rt s.dir suffix ↔ ¬Overlapping es) :=
  ⟨session_entries hread htail hnew hrun,
    clean_iff_not_overlapping hclean hread htail hchain hnew hrun hdone⟩

/-- Two calls one after the other, from an empty directory. -/
theorem interleaved_appends_serial :
    ∃ (s : Session sampleSaves.length) (appended : List ChainEntry),
      readChain .standard s.dir = .ok appended ∧
      (∀ i : Fin sampleSaves.length, ∃ e ∈ appended, e.filename = sampleSaves[i].name) ∧
      Clean spelledOut .standard s.dir ".json" := by
  obtain ⟨s, hrun, hdone⟩ := serial_run
  obtain ⟨⟨appended, hread, _, hentries⟩, hclean⟩ :=
    interleaved_appends spelledOut .standard (sampleDirectory []) ".json" [] sampleSaves
      serialSchedule s (clean_sampleDirectory [] (by simp)) rfl (tailBlank_sampleDirectory []) (by simp)
      newSnapshots_sampleSaves hrun hdone
  refine ⟨s, appended, hread, fun i => ?_, hclean.mpr not_overlapping_serialSchedule⟩
  obtain ⟨e, he⟩ := hdone i
  exact ⟨e, hentries i e he⟩

end DevRepro.Snapshots
