import DevRepro.Lib.HashChain
import DevRepro.Snapshots.Chain

/-!
# What `verify_chain` says

`verify_chain` is read here as a statement about the entries.  `Verified`
lists what holds of them when it reports no problem, and
`verifyChain_clean_iff` is the equivalence.  `chainScheme` makes the entries a
chain in the sense of `Lib.HashChain`, with `headDigest` as its head.  The last
section has a digest to evaluate examples with.

The digest of an entry is the hash of a JSON text.  It determines the entry
because `read_chain` returns well-paired strings only, and on those the text
determines the record.
-/

namespace DevRepro.Snapshots

open DevRepro.Python
open DevRepro.Lib.HashChain

/-! ## The entries as a chain -/

/-- Which digest an entry carries and which one it claims to follow. -/
def chainScheme : Scheme ChainEntry Str where
  own := ChainEntry.digestOfEntry
  prev := ChainEntry.prev

theorem headDigest_eq_head (entries : List ChainEntry) :
    headDigest entries = head chainScheme genesis entries := rfl

/-- An entry whose strings are well paired. -/
structure ChainEntry.Paired (e : ChainEntry) : Prop where
  recordedAt : WellPaired e.recordedAt
  filename : WellPaired e.filename
  digest : WellPaired e.digest
  prev : WellPaired e.prev
  digestOfEntry : WellPaired e.digestOfEntry

section

variable {H : Sha256} {rt : Runtime}

/-! ## Digests -/

theorem isPrintableAscii_of_isHexDigit {c : CodePoint} (h : isHexDigit c = true) :
    isPrintableAscii c = true := by
  simp only [isHexDigit, Bool.or_eq_true, Bool.and_eq_true, decide_eq_true_eq] at h
  simp only [isPrintableAscii, Bool.and_eq_true, decide_eq_true_eq]
  omega

theorem hexdigest_printable (H : Sha256) (bytes : ByteArray) :
    PrintableText (H.hexdigest bytes) := fun c hc =>
  isPrintableAscii_of_isHexDigit (H.hexdigest_hex bytes c hc)

/-- The genesis marker is no digest. -/
theorem hexdigest_ne_genesis (H : Sha256) (bytes : ByteArray) : H.hexdigest bytes ≠ genesis := by
  intro h
  have hg : codePoint 'g' ∈ H.hexdigest bytes := by
    rw [h]
    decide
  exact absurd (H.hexdigest_hex bytes _ hg) (by decide)

theorem order_entryPayload (seq : Int) (recordedAt filename digest prev : Str) :
    DumpStyle.compact.order (entryPayload seq recordedAt filename digest prev) =
      entryPayload seq recordedAt filename digest prev := rfl

/-- An entry digest is the hash of the text of the payload, which holds a
sequence number within the digit limit. -/
theorem entryDigest_ok {seq : Int} {recordedAt filename digest prev own : Str}
    (h : entryDigest H rt seq recordedAt filename digest prev = .ok own) :
    fitsDigits rt.limits seq = true ∧ ∃ bytes,
      encodeUtf8 (dumpText rt .compact 0 (entryPayload seq recordedAt filename digest prev)) =
        some bytes ∧ own = H.hexdigest bytes := by
  obtain ⟨payload, hpayload, hrest⟩ := bind_eq_ok.mp h
  obtain ⟨herror, rfl⟩ := dumps_ok hpayload
  rw [order_entryPayload] at herror hrest
  constructor
  · unfold entryPayload dumpError at herror
    split_ifs at herror with hroom
    simpa [dumpErrorItems, dumpError] using herror
  · split at hrest
    · rename_i bytes hbytes
      cases hrest
      exact ⟨bytes, hbytes, rfl⟩
    · cases hrest

/-- The payload of an entry reads back. -/
theorem readable_entryPayload {l : Limits} (hl : 0 < l.depth) {seq : Int}
    {recordedAt filename digest prev : Str} (hseq : fitsDigits l seq = true)
    (hr : WellPaired recordedAt) (hf : WellPaired filename) (hd : WellPaired digest)
    (hp : WellPaired prev) :
    Readable l 0 (entryPayload seq recordedAt filename digest prev) := by
  have hschema : WellPaired schema := PrintableText.wellPaired (by decide)
  refine .obj 0 _ hl (by simp only [List.map_cons, List.map_nil]; decide) ?_ ?_
  · simp only [List.forall_mem_cons]
    refine ⟨?_, ?_, ?_, ?_, ?_, ?_, by simp⟩ <;> exact PrintableText.wellPaired (by decide)
  · simp only [List.forall_mem_cons]
    exact ⟨.str _ _ hd, .str _ _ hf, .str _ _ hp, .str _ _ hr, .str _ _ hschema, .int _ _ hseq,
      by simp⟩

/-- Entry digests tell well-paired links apart, as far as the hash does. -/
theorem entryDigest_inj (hH : Function.Injective H.hexdigest) {x y : ChainEntry}
    (hx : x.Paired) (hy : y.Paired)
    (hdx : entryDigest H rt x.seq x.recordedAt x.filename x.digest x.prev = .ok x.digestOfEntry)
    (hdy : entryDigest H rt y.seq y.recordedAt y.filename y.digest y.prev = .ok y.digestOfEntry)
    (h : x.digestOfEntry = y.digestOfEntry) : x = y := by
  obtain ⟨hfx, bx, hbx, hox⟩ := entryDigest_ok hdx
  obtain ⟨hfy, by', hby, hoy⟩ := entryDigest_ok hdy
  have hbytes : bx = by' := hH (by rw [← hox, ← hoy, h])
  have htext := encodeUtf8_inj hbx (hbytes ▸ hby)
  have hpayload := dumpText_inj
    (readable_entryPayload rt.depth_pos hfx hx.recordedAt hx.filename hx.digest hx.prev)
    (readable_entryPayload rt.depth_pos hfy hy.recordedAt hy.filename hy.digest hy.prev) htext
  obtain ⟨seq, recordedAt, filename, digest, prev, digestOfEntry⟩ := x
  simp only [entryPayload, Json.obj.injEq, List.cons.injEq, Prod.mk.injEq, Json.str.injEq,
    Json.int.injEq, true_and, and_true] at hpayload
  obtain ⟨h1, h2, h3, h4, h5⟩ := hpayload
  rw [show digestOfEntry = y.digestOfEntry from h]
  subst h1 h2 h3 h4 h5
  rfl

/-- An entry digest is not the genesis marker. -/
theorem entryDigest_ne_genesis {seq : Int} {recordedAt filename digest prev own : Str}
    (h : entryDigest H rt seq recordedAt filename digest prev = .ok own) : own ≠ genesis := by
  obtain ⟨_, bytes, _, rfl⟩ := entryDigest_ok h
  exact hexdigest_ne_genesis H bytes

/-! ## What is read is well paired -/

theorem readRecord_paired {line : Str} (hline : ∀ c ∈ line, isSurrogate c = false)
    {e : ChainEntry} (h : readRecord rt line = .ok e) : e.Paired := by
  simp only [readRecord, bind_eq_ok, pure_eq_ok] at h
  obtain ⟨record, hload, _, _, _, _, r, hr, _, hrs, f, hf, _, hfs, d, hd, _, hds, p, hp, _, hps,
    o, ho, _, hos, rfl⟩ := h
  have hrec : record.Paired := loads_paired hline hload
  exact ⟨(hrec.getItem hr).toStr hrs, (hrec.getItem hf).toStr hfs, (hrec.getItem hd).toStr hds,
    (hrec.getItem hp).toStr hps, (hrec.getItem ho).toStr hos⟩

theorem readLines_paired {number : Nat} {lines : List Str}
    (hlines : ∀ line ∈ lines, ∀ c ∈ line, isSurrogate c = false) {entries : List ChainEntry}
    (h : readLines rt number lines = .ok entries) : ∀ e ∈ entries, e.Paired := by
  induction lines generalizing number entries with
  | nil =>
    cases h
    intro e he
    cases he
  | cons line rest ih =>
    rw [List.forall_mem_cons] at hlines
    rw [readLines] at h
    split_ifs at h
    · exact ih hlines.2 h
    · split at h
      · cases h
      · rename_i entry hentry
        obtain ⟨more, hmore, hcons⟩ := bind_eq_ok.mp h
        rw [pure_eq_ok] at hcons
        rw [← hcons, List.forall_mem_cons]
        exact ⟨readRecord_paired hlines.1 hentry, ih hlines.2 hmore⟩

theorem readChain_paired {d : Directory} {entries : List ChainEntry}
    (h : readChain rt d = .ok entries) : ∀ e ∈ entries, e.Paired := by
  unfold readChain at h
  split at h
  · split at h
    · rename_i text htext
      refine readLines_paired (fun line hline c hc => ?_) h
      exact readText_not_surrogate htext c (mem_of_mem_splitlines hline hc)
    · cases h
  · cases h
    intro e he
    cases he

/-! ## Verification as a statement -/

/-- The sequence numbers count the entries from an index on. -/
def Numbered (index : Nat) (entries : List ChainEntry) : Prop :=
  entries.map ChainEntry.seq = (List.range' index entries.length).map Nat.cast

/-- The digest that an entry carries is that of its contents. -/
def Sealed (H : Sha256) (rt : Runtime) (e : ChainEntry) : Prop :=
  entryDigest H rt e.seq e.recordedAt e.filename e.digest e.prev = .ok e.digestOfEntry

/-- The snapshot file of an entry is there and has the recorded digest. -/
def FileIntact (H : Sha256) (d : Directory) (e : ChainEntry) : Prop :=
  ∃ data, d.file? e.filename = some data ∧ H.hexdigest data = e.digest

/-- Every snapshot file in the directory is recorded. -/
def AllChained (d : Directory) (snapshotSuffix : Str) (entries : List ChainEntry) : Prop :=
  ∀ name ∈ d.names, snapshotSuffix.isSuffixOf name = true → name ≠ chainFilename →
    ∃ e ∈ entries, e.filename = name

/-- What holds of the entries of a directory that verifies. -/
structure Verified (H : Sha256) (rt : Runtime) (d : Directory) (snapshotSuffix : Str)
    (entries : List ChainEntry) : Prop where
  numbered : Numbered 1 entries
  linked : Linked chainScheme genesis entries
  sealed : ∀ e ∈ entries, Sealed H rt e
  intact : ∀ e ∈ entries, FileIntact H d e
  chained : AllChained d snapshotSuffix entries

/-- `verify_chain` returns and reports no problem. -/
def Clean (H : Sha256) (rt : Runtime) (d : Directory) (snapshotSuffix : Str) : Prop :=
  ∃ v, verifyChain H rt d snapshotSuffix = .ok v ∧ v.problems = []

theorem checkSequence_clean {index : Nat} {e : ChainEntry} :
    checkSequence rt index e = .ok [] ↔ e.seq = index := by
  rw [checkSequence]
  split_ifs with h
  · simp [h]
  · refine iff_of_false (fun hok => ?_) h
    obtain ⟨claimed, _, hcons⟩ := bind_eq_ok.mp hok
    cases hcons

theorem checkLink_clean {expectedPrev : Str} {e : ChainEntry} :
    checkLink expectedPrev e = [] ↔ e.prev = expectedPrev := by
  rw [checkLink]
  split_ifs with h <;> simp [h]

theorem checkDigest_clean {e : ChainEntry} : checkDigest H rt e = .ok [] ↔ Sealed H rt e := by
  rw [checkDigest, bind_eq_ok, Sealed]
  constructor
  · rintro ⟨recomputed, hdigest, hpure⟩
    rw [pure_eq_ok] at hpure
    split_ifs at hpure with heq
    rw [hdigest, heq]
  · intro h
    exact ⟨_, h, by rw [if_pos rfl]; rfl⟩

theorem checkFile_clean {d : Directory} {e : ChainEntry} :
    checkFile H d e = [] ↔ FileIntact H d e := by
  rw [checkFile, FileIntact]
  cases d.file? e.filename with
  | none => simp
  | some data =>
    simp only [Option.some.injEq, exists_eq_left']
    split_ifs with h <;> simp [h]

theorem numbered_cons {index : Nat} {e : ChainEntry} {rest : List ChainEntry} :
    Numbered index (e :: rest) ↔ e.seq = index ∧ Numbered (index + 1) rest := by
  simp [Numbered, List.range'_succ]

theorem checkEntries_clean {d : Directory} {index : Nat} {expectedPrev : Str}
    {entries : List ChainEntry} :
    checkEntries H rt d index expectedPrev entries = .ok [] ↔
      Numbered index entries ∧ Linked chainScheme expectedPrev entries ∧
        (∀ e ∈ entries, Sealed H rt e) ∧ ∀ e ∈ entries, FileIntact H d e := by
  induction entries generalizing index expectedPrev with
  | nil => simp [checkEntries, Numbered]
  | cons e rest ih =>
    rw [checkEntries, numbered_cons, linked_cons, List.forall_mem_cons, List.forall_mem_cons]
    constructor
    · intro h
      obtain ⟨sequence, hseq, h⟩ := bind_eq_ok.mp h
      obtain ⟨digest, hdig, h⟩ := bind_eq_ok.mp h
      obtain ⟨more, hmore, h⟩ := bind_eq_ok.mp h
      rw [pure_eq_ok] at h
      simp only [List.append_eq_nil_iff] at h
      obtain ⟨⟨⟨⟨rfl, hlink⟩, rfl⟩, hfile⟩, rfl⟩ := h
      obtain ⟨hn, hl, hs, hi⟩ := ih.mp hmore
      exact ⟨⟨checkSequence_clean.mp hseq, hn⟩, ⟨checkLink_clean.mp hlink, hl⟩,
        ⟨checkDigest_clean.mp hdig, hs⟩, checkFile_clean.mp hfile, hi⟩
    · rintro ⟨⟨hseq, hn⟩, ⟨hlink, hl⟩, ⟨hdig, hs⟩, hfile, hi⟩
      have hrest : checkEntries H rt d (index + 1) e.digestOfEntry rest = .ok [] :=
        ih.mpr ⟨hn, hl, hs, hi⟩
      rw [checkSequence_clean.mpr hseq, checkDigest_clean.mpr hdig, hrest,
        checkLink_clean.mpr hlink, checkFile_clean.mpr hfile]
      rfl

theorem checkUnchained_clean {d : Directory} {snapshotSuffix : Str} {entries : List ChainEntry} :
    checkUnchained d snapshotSuffix entries = [] ↔ AllChained d snapshotSuffix entries := by
  rw [checkUnchained, List.map_eq_nil_iff, List.filter_eq_nil_iff]
  simp only [globSuffix, List.mem_insertionSort, List.mem_filter, and_imp, Bool.not_eq_true,
    Bool.not_eq_false', Bool.or_eq_true, beq_iff_eq, List.any_eq_true, AllChained]
  refine forall_congr' fun name => forall_congr' fun _ => forall_congr' fun _ => ?_
  exact or_iff_not_imp_left

/-- `verify_chain` reports no problem exactly when the entries it reads are
verified. -/
theorem verifyChain_clean_iff {d : Directory} {snapshotSuffix : Str} :
    Clean H rt d snapshotSuffix ↔
      ∃ entries, readChain rt d = .ok entries ∧ Verified H rt d snapshotSuffix entries := by
  constructor
  · rintro ⟨v, hv, hclean⟩
    obtain ⟨entries, hread, hv⟩ := bind_eq_ok.mp hv
    obtain ⟨problems, hproblems, hv⟩ := bind_eq_ok.mp hv
    rw [pure_eq_ok] at hv
    subst hv
    obtain ⟨rfl, hunchained⟩ := List.append_eq_nil_iff.mp hclean
    have hcheck : checkEntries H rt d 1 genesis entries = .ok [] := by
      cases hc : checkEntries H rt d 1 genesis entries with
      | error e => rw [hc] at hproblems; cases hproblems
      | ok problems => rw [hc] at hproblems; cases hproblems; rfl
    obtain ⟨hn, hl, hs, hi⟩ := checkEntries_clean.mp hcheck
    exact ⟨entries, hread, hn, hl, hs, hi, checkUnchained_clean.mp hunchained⟩
  · rintro ⟨entries, hread, hn, hl, hs, hi, hc⟩
    have hcheck : checkEntries H rt d 1 genesis entries = .ok [] :=
      checkEntries_clean.mpr ⟨hn, hl, hs, hi⟩
    refine ⟨⟨true, entries.length, headDigest entries, []⟩, ?_, rfl⟩
    refine bind_eq_ok.mpr ⟨entries, hread, bind_eq_ok.mpr ⟨[], by rw [hcheck]; rfl, ?_⟩⟩
    rw [checkUnchained_clean.mpr hc]
    rfl

end

/-! ## A digest to evaluate with -/

/-- Two hexadecimal digits. -/
def hexByte (b : UInt8) : Str := [hexChar (b.toNat / 16), hexChar (b.toNat % 16)]

theorem isHexDigit_hexChar {n : Nat} (h : n < 16) : isHexDigit (hexChar n) = true := by
  have hall : ∀ n < 16, isHexDigit (hexChar n) = true := by decide
  exact hall n h

/-- The digest that spells its bytes out.  It is injective, and like any other
it has hexadecimal digits only. -/
def spelledOut : Sha256 where
  hexdigest := fun bytes => bytes.data.toList.flatMap hexByte
  hexdigest_hex := by
    intro bytes c hc
    obtain ⟨b, _, hb⟩ := List.mem_flatMap.mp hc
    have hlt := b.toNat_lt
    simp only [hexByte, List.mem_cons, List.not_mem_nil, or_false] at hb
    rcases hb with rfl | rfl <;> exact isHexDigit_hexChar (by omega)

theorem hexByte_inj {a b : UInt8} (h : hexByte a = hexByte b) : a = b := by
  have ha := a.toNat_lt
  have hb := b.toNat_lt
  simp only [hexByte, List.cons.injEq, and_true] at h
  have hhigh := Scan.hexDigit?_hexChar (show a.toNat / 16 < 16 by omega)
  have hlow := Scan.hexDigit?_hexChar (show a.toNat % 16 < 16 by omega)
  rw [h.1, Scan.hexDigit?_hexChar (by omega)] at hhigh
  rw [h.2, Scan.hexDigit?_hexChar (by omega)] at hlow
  simp only [Option.some.injEq] at hhigh hlow
  exact UInt8.toNat_inj.mp (by omega)

theorem spelledOut_injective : Function.Injective spelledOut.hexdigest := by
  have hlist : ∀ xs ys : List UInt8, xs.flatMap hexByte = ys.flatMap hexByte → xs = ys := by
    intro xs
    induction xs with
    | nil =>
      intro ys h
      cases ys with
      | nil => rfl
      | cons y ys => simp [hexByte] at h
    | cons x xs ih =>
      intro ys h
      cases ys with
      | nil => simp [hexByte] at h
      | cons y ys =>
        rw [List.flatMap_cons, List.flatMap_cons] at h
        obtain ⟨hxy, hrest⟩ := List.append_inj h rfl
        rw [hexByte_inj hxy, ih ys hrest]
  intro a b h
  exact ByteArray.ext (Array.toList_inj.mp (hlist _ _ h))

end DevRepro.Snapshots
