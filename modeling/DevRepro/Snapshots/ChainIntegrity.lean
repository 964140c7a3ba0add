import DevRepro.Snapshots.ChainAppend

/-!
# What a head digest commits to

`history_determined_by_head` is the property the chain exists for: whoever has
written the head digest down knows the entries and the bytes of every recorded
file, as far as the hash can tell bytes apart.  The induction over the chain
is `Linked.eq_of_head_eq`.
-/

namespace DevRepro.Snapshots

open DevRepro.Python
open DevRepro.Lib.HashChain

section

variable {H : Sha256} {rt : Runtime}

/-- Verified entries with equal heads are equal. -/
theorem Verified.eq_of_head_eq (hH : Function.Injective H.hexdigest) {d d' : Directory}
    {suffix suffix' : Str} {entries entries' : List ChainEntry}
    (hv : Verified H rt d suffix entries) (hv' : Verified H rt d' suffix' entries')
    (hp : ∀ e ∈ entries, e.Paired) (hp' : ∀ e ∈ entries', e.Paired)
    (hhead : headDigest entries = headDigest entries') : entries = entries' := by
  refine hv.linked.eq_of_head_eq hv'.linked ?_ ?_ ?_ hhead
  · intro x hx y hy hown
    exact entryDigest_inj hH (hp x hx) (hp' y hy) (hv.sealed x hx) (hv'.sealed y hy) hown
  · exact fun x hx => entryDigest_ne_genesis (hv.sealed x hx)
  · exact fun y hy => entryDigest_ne_genesis (hv'.sealed y hy)

/-- The recorded digests pin down the bytes of the recorded files. -/
theorem Verified.same_files (hH : Function.Injective H.hexdigest) {d d' : Directory}
    {suffix suffix' : Str} {entries : List ChainEntry} (hv : Verified H rt d suffix entries)
    (hv' : Verified H rt d' suffix' entries) :
    ∀ e ∈ entries, ∃ data, d.file? e.filename = some data ∧ d'.file? e.filename = some data := by
  intro e he
  obtain ⟨data, hdata, hdigest⟩ := hv.intact e he
  obtain ⟨data', hdata', hdigest'⟩ := hv'.intact e he
  have heq : data = data' := hH (hdigest.trans hdigest'.symm)
  exact ⟨data, hdata, heq ▸ hdata'⟩

end

/-- A directory that verifies is pinned down by its head digest: another one
that verifies with the same head has the same entries, and the same bytes in
every recorded file.  So any change to the entries or to a recorded file shows
in the head digest or in the verification. -/
theorem history_determined_by_head (H : Sha256) (rt : Runtime)
    (hH : Function.Injective H.hexdigest) (d d' : Directory) (suffix suffix' : Str)
    (entries entries' : List ChainEntry) (hread : readChain rt d = .ok entries)
    (hread' : readChain rt d' = .ok entries') (hclean : Clean H rt d suffix) :
    (Clean H rt d' suffix' → headDigest entries = headDigest entries' →
      entries = entries' ∧
        ∀ e ∈ entries, ∃ data, d.file? e.filename = some data ∧ d'.file? e.filename = some data) ∧
    ((entries' ≠ entries ∨ ∃ e ∈ entries, d'.file? e.filename ≠ d.file? e.filename) →
      headDigest entries' ≠ headDigest entries ∨ ¬Clean H rt d' suffix') := by
  have hsame : Clean H rt d' suffix' → headDigest entries = headDigest entries' →
      entries = entries' ∧ ∀ e ∈ entries, ∃ data,
        d.file? e.filename = some data ∧ d'.file? e.filename = some data := by
    intro hclean' hhead
    obtain ⟨es, hes, hv⟩ := verifyChain_clean_iff.mp hclean
    obtain ⟨es', hes', hv'⟩ := verifyChain_clean_iff.mp hclean'
    obtain rfl : entries = es := by rw [hread] at hes; cases hes; rfl
    obtain rfl : entries' = es' := by rw [hread'] at hes'; cases hes'; rfl
    have heq := hv.eq_of_head_eq hH hv' (readChain_paired hread) (readChain_paired hread') hhead
    exact ⟨heq, hv.same_files hH (heq ▸ hv')⟩
  refine ⟨hsame, fun hchange => ?_⟩
  by_contra hnot
  rw [not_or, not_not, not_not] at hnot
  obtain ⟨heq, hfiles⟩ := hsame hnot.2 hnot.1.symm
  rcases hchange with hne | ⟨e, he, hne⟩
  · exact hne heq.symm
  · obtain ⟨data, hd, hd'⟩ := hfiles e he
    exact hne (hd'.trans hd.symm)

/-- Two directories with one snapshot each verify with the same head.  In the
first one the snapshot is then edited, and it does not verify any more. -/
theorem history_determined_by_head_sample :
    ∃ (d d' : Directory) (e : ChainEntry), d.names ≠ d'.names ∧
      readChain .standard d = .ok [e] ∧ Clean spelledOut .standard d ".json" ∧
      readChain .standard d' = .ok [e] ∧ Clean spelledOut .standard d' ".json" ∧
      d.file? e.filename = some sampleData ∧ d'.file? e.filename = some sampleData ∧
      ¬Clean spelledOut .standard (d.write "a.json" ⟨#[8]⟩) ".json" := by
  obtain ⟨e, bytes, happend, hfollows, hread, hclean⟩ := sample_appended [] (by simp)
  obtain ⟨e', bytes', happend', _, hread', hclean'⟩ :=
    sample_appended [lit "notes.txt"] (by decide)
  have hsame : e' = e := Except.ok.inj
    ((appendEntry_ok happend').1.symm.trans (appendEntry_ok happend).1)
  subst hsame
  let d := ((sampleDirectory []).write "a.json" sampleData).write chainFilename bytes
  let d' := ((sampleDirectory ["notes.txt"]).write "a.json" sampleData).write chainFilename bytes'
  obtain ⟨data, hdata, hdata'⟩ := ((history_determined_by_head spelledOut .standard
    spelledOut_injective d d' ".json" ".json" _ _ hread hread' hclean).1 hclean' rfl).2 e' (by simp)
  have hfile : d.file? e'.filename = some sampleData := by
    rw [hfollows.filename]
    rfl
  obtain rfl : data = sampleData := Option.some.inj (hdata.symm.trans hfile)
  have hedited : (d.write "a.json" ⟨#[8]⟩).file? e'.filename ≠ d.file? e'.filename := by
    rw [hfile, hfollows.filename, Directory.file?_write (by decide), if_pos rfl]
    decide
  have hreadEdited : readChain .standard (d.write "a.json" ⟨#[8]⟩) = .ok [e'] :=
    (readChain_congr (by rfl)).trans hread
  have hnot := ((history_determined_by_head spelledOut .standard spelledOut_injective d _ ".json"
    ".json" _ _ hread hreadEdited hclean).2 (Or.inr ⟨e', by simp, hedited⟩)).resolve_left (by simp)
  have hnames : [lit "a.json", chainFilename] ≠ [lit "notes.txt", lit "a.json", chainFilename] := by
    decide
  exact ⟨d, d', e', hnames, hread, hclean, hread', hclean', hdata, hdata', hnot⟩

end DevRepro.Snapshots
