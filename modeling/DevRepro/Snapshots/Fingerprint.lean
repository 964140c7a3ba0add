import DevRepro.Core.VersionOrder
import DevRepro.Lib.Sorting
import DevRepro.Python.Surrogates
import DevRepro.Snapshots.Migration
import Mathlib.Data.List.Perm.Basic

/-!
# What a fingerprint identifies

`project_fingerprint` of `snapshots/protocol.py`, for records whose ecosystem, name and
spec are strings.  Two lists of records have one fingerprint when the same requirements are
declared in them, whatever the order: `fingerprint_eq_iff`.  The encoder writes a surrogate
pair like the character it stands for, so the requirements are the same up to that.
-/

namespace DevRepro.Snapshots

open DevRepro.Python DevRepro.Core DevRepro.Lib

/-! ## Requirements -/

/-- What a record declares. -/
structure Declared where
  eco : Str
  name : Str
  spec : Str
  deriving DecidableEq

/-- The record has the three texts, whatever else is in it. -/
structure Declares (record : Json) (d : Declared) : Prop where
  eco : record.getD "ecosystem" .null = .ok (.str d.eco)
  name : record.getD "name" .null = .ok (.str d.name)
  spec : record.getD "spec" .null = .ok (.str d.spec)

/-- No text has a high surrogate directly before a low one. -/
structure Declared.Paired (d : Declared) : Prop where
  eco : WellPaired d.eco
  name : WellPaired d.name
  spec : WellPaired d.spec

/-- Requirements as their literals tell them apart. -/
abbrev Requirement := {d : Declared // d.Paired}

def Declared.joined (d : Declared) : Requirement :=
  ⟨⟨Python.joined d.eco, Python.joined d.name, Python.joined d.spec⟩,
    ⟨wellPaired_joined d.eco, wellPaired_joined d.name, wellPaired_joined d.spec⟩⟩

theorem Declared.Paired.joined_eq {d : Declared} (h : d.Paired) : d.joined.val = d := by
  obtain ⟨eco, name, spec⟩ := d
  simp only [Declared.joined, joined_of_wellPaired h.eco, joined_of_wellPaired h.name,
    joined_of_wellPaired h.spec]

/-! ## Lines -/

variable (rt : Runtime)

/-- The line of a requirement. -/
def lineOf (d : Declared) : Str :=
  dumpText rt .sorted 0 (.obj [("eco", .str d.eco), ("name", .str d.name), ("spec", .str d.spec)])

variable {rt}

theorem requirementLine_eq {record : Json} {d : Declared} (h : Declares record d) :
    requirementLine rt record = .ok (lineOf rt d) := by
  have hdepth : 0 < rt.dumpsDepth none := Nat.lt_of_lt_of_le (by decide) (rt.dumpsDepth_ge none)
  have hvalues : ∀ item ∈ [(lit "eco", Json.str d.eco), (lit "name", .str d.name),
      (lit "spec", .str d.spec)], dumpError rt .sorted 1 item.2 = none := by
    intro item hitem
    simp only [List.mem_cons, List.not_mem_nil, or_false] at hitem
    rcases hitem with rfl | rfl | rfl
    · rfl
    · rfl
    · rfl
  rw [requirementLine, h.eco, h.name, h.spec]
  exact dumps_of_no_error (dumpError_obj_eq_none.mpr ⟨hdepth, hvalues⟩)

theorem mapM_requirementLine {records : List Json} {ds : List Declared}
    (h : List.Forall₂ Declares records ds) :
    records.mapM (requirementLine rt) = .ok (ds.map (lineOf rt)) := by
  induction h with
  | nil => rfl
  | cons hrecord _ ih =>
    rw [List.mapM_cons, requirementLine_eq hrecord, ih]
    rfl

/-- Joined requirements are written like the requirements themselves. -/
theorem lineOf_joined (d : Declared) : lineOf rt d.joined.val = lineOf rt d := by
  simp only [lineOf, dumpText, dumpItems, Declared.joined, quote_joined]

/-- And told apart by their lines. -/
theorem lineOf_injective : Function.Injective fun r : Requirement => lineOf rt r.val := by
  rintro ⟨⟨eco, name, spec⟩, hpaired⟩ ⟨⟨eco', name', spec'⟩, hpaired'⟩ h
  have hread : ∀ d : Declared, d.Paired → Readable rt.limits 0 (.obj [("eco", .str d.eco),
      ("name", .str d.name), ("spec", .str d.spec)]) := by
    intro d hd
    have hkeys : [lit "eco", lit "name", lit "spec"].Nodup := by decide
    refine readable_of_check ?_
    simp only [checkReadable, checkItems, hd.eco, hd.name, hd.spec, decide_true, Bool.and_true,
      Bool.and_eq_true, decide_eq_true_eq]
    exact ⟨⟨rt.depth_pos, hkeys⟩, by decide⟩
  have heq := dumpText_inj (hread _ hpaired) (hread _ hpaired') h
  simp only [Json.obj.injEq, List.cons.injEq, Prod.mk.injEq, Json.str.injEq, true_and, and_true]
    at heq
  obtain ⟨rfl, rfl, rfl⟩ := heq
  rfl

theorem lineOf_printable (d : Declared) : PrintableText (lineOf rt d) :=
  dumpText_printable rt rfl _ 0

/-! ## The payload -/

variable (rt)

/-- The text that is hashed, for the lines. -/
def payloadOf (canon : List Str) : Str :=
  dumpText rt .sorted 0 (.arr ((canon.mergeSort strLe).map Json.str))

variable {rt}

theorem mergeSort_strLe (lines : List Str) : lines.mergeSort strLe = ascending lines := by
  have hle : strLe = fun s t => decide (s ≤ t) := by
    funext s t
    rw [Bool.eq_iff_iff, strLe_iff, decide_eq_true_eq]
  rw [hle, ascending]

/-- The payload tells lines apart up to their order. -/
theorem payloadOf_eq_iff {xs ys : List Str} (hxs : ∀ line ∈ xs, PrintableText line)
    (hys : ∀ line ∈ ys, PrintableText line) :
    payloadOf rt xs = payloadOf rt ys ↔ xs.Perm ys := by
  have hread : ∀ lines : List Str, (∀ line ∈ lines, PrintableText line) →
      Readable rt.limits 0 (.arr ((lines.mergeSort strLe).map Json.str)) := by
    intro lines hlines
    refine .arr 0 _ rt.depth_pos fun v hv => ?_
    obtain ⟨line, hline, rfl⟩ := List.mem_map.mp hv
    exact .str 1 line (PrintableText.wellPaired (hlines line (List.mem_mergeSort.mp hline)))
  rw [← ascending_eq_iff, ← mergeSort_strLe, ← mergeSort_strLe]
  constructor
  · intro h
    have hsorted := dumpText_inj (hread xs hxs) (hread ys hys) h
    rw [Json.arr.injEq] at hsorted
    exact (List.map_injective_iff.mpr fun _ _ => Json.str.inj) hsorted
  · intro h
    rw [payloadOf, payloadOf, h]

/-- Lines of requirements, up to what the literals tell apart. -/
theorem lines_perm_iff (rt : Runtime) {ds es : List Declared} :
    (ds.map (lineOf rt)).Perm (es.map (lineOf rt)) ↔
      (ds.map Declared.joined).Perm (es.map Declared.joined) := by
  have hlines : ∀ ds : List Declared, ds.map (lineOf rt) =
      (ds.map Declared.joined).map fun r : Requirement => lineOf rt r.val := by
    intro ds
    rw [List.map_map]
    exact List.map_congr_left fun d _ => (lineOf_joined d).symm
  rw [hlines, hlines, List.map_perm_map_iff lineOf_injective]

/-! ## Fingerprints -/

variable {sha256 : Str → Str} {xs ys : List Json} {ds es : List Declared}

theorem projectFingerprint_eq (h : List.Forall₂ Declares xs ds) :
    projectFingerprint rt sha256 xs = .ok ((sha256 (payloadOf rt (ds.map (lineOf rt)))).take 16) := by
  have hroom : 0 < rt.dumpsDepth none := Nat.lt_of_lt_of_le (by decide) (rt.dumpsDepth_ge none)
  have hdump : dumpError rt .sorted 0 (DumpStyle.sorted.order
      (.arr (((ds.map (lineOf rt)).mergeSort strLe).map Json.str))) = none := by
    rw [order_strs, dumpError_arr_eq_none]
    refine ⟨hroom, fun v hv => ?_⟩
    obtain ⟨line, -, rfl⟩ := List.mem_map.mp hv
    rfl
  rw [projectFingerprint, mapM_requirementLine h]
  show (dumps rt .sorted _).bind _ = _
  rw [dumps_of_no_error hdump, order_strs]
  rfl

/-- The hash, cut to sixteen characters, has no collision between the payloads of two lists. -/
def NoCollision (rt : Runtime) (sha256 : Str → Str) (ds es : List Declared) : Prop :=
  (sha256 (payloadOf rt (ds.map (lineOf rt)))).take 16 =
      (sha256 (payloadOf rt (es.map (lineOf rt)))).take 16 →
    payloadOf rt (ds.map (lineOf rt)) = payloadOf rt (es.map (lineOf rt))

/-- Records have one fingerprint exactly when they declare the same requirements, as often,
up to surrogate pairs; and where no text has such a pair, the same ones as they stand. -/
theorem fingerprint_eq_iff (hx : List.Forall₂ Declares xs ds) (hy : List.Forall₂ Declares ys es)
    (hhash : NoCollision rt sha256 ds es) :
    (∃ fingerprint, projectFingerprint rt sha256 xs = .ok fingerprint) ∧
    (projectFingerprint rt sha256 xs = projectFingerprint rt sha256 ys ↔
      (ds.map Declared.joined).Perm (es.map Declared.joined)) ∧
    ((∀ d ∈ ds, d.Paired) → (∀ e ∈ es, e.Paired) →
      (projectFingerprint rt sha256 xs = projectFingerprint rt sha256 ys ↔ ds.Perm es)) := by
  have hprintable : ∀ ds : List Declared, ∀ line ∈ ds.map (lineOf rt), PrintableText line := by
    intro ds line hline
    obtain ⟨d, -, rfl⟩ := List.mem_map.mp hline
    exact lineOf_printable d
  have hfingerprints : projectFingerprint rt sha256 xs = projectFingerprint rt sha256 ys ↔
      (ds.map Declared.joined).Perm (es.map Declared.joined) := by
    rw [projectFingerprint_eq hx, projectFingerprint_eq hy, Except.ok.injEq, ← lines_perm_iff rt,
      ← payloadOf_eq_iff (hprintable ds) (hprintable es)]
    exact ⟨hhash, fun h => by rw [h]⟩
  have hstand : ∀ ds : List Declared, (∀ d ∈ ds, d.Paired) →
      (ds.map Declared.joined).map Subtype.val = ds := by
    intro ds hds
    rw [List.map_map]
    exact (List.map_congr_left fun d hd => (hds d hd).joined_eq).trans (List.map_id ds)
  refine ⟨⟨_, projectFingerprint_eq hx⟩, hfingerprints, fun hds hes => ?_⟩
  rw [hfingerprints, ← List.map_perm_map_iff Subtype.val_injective, hstand ds hds, hstand es hes]

/-- A record with the three fields, and others behind them. -/
def recordWith (others : List (Str × Json)) (d : Declared) : Json :=
  .obj ((lit "spec", .str d.spec) :: (lit "name", .str d.name) :: (lit "ecosystem", .str d.eco) :: others)

/-- The hash of one payload; on every other text it is empty. -/
def sampleHash (payload : Str) : Str :=
  if payload = lit ("[\"\x7b\\\"eco\\\": \\\"node\\\", \\\"name\\\": \\\"node\\\", " ++
      "\\\"spec\\\": \\\"20\\\"\x7d\", \"\x7b\\\"eco\\\": \\\"python\\\", " ++
      "\\\"name\\\": \\\"python\\\", \\\"spec\\\": \\\">=3.11\\\"\x7d\"]") then
    "0ebde0bfca035f5b6fea7e361263a4ad24c9f4d1477a151b01155a6f074a08cb"
  else []

def pythonDeclared : Declared := ⟨"python", "python", ">=3.11"⟩

def nodeDeclared : Declared := ⟨"node", "node", "20"⟩

/-- Two requirements in either order. -/
theorem fingerprint_eq_iff_order :
    projectFingerprint Runtime.standard sampleHash
        [recordWith [] pythonDeclared, recordWith [("source", .str "pyproject.toml")] nodeDeclared] =
      projectFingerprint Runtime.standard sampleHash
        [recordWith [] nodeDeclared, recordWith [] pythonDeclared] := by
  have hpaired : ∀ d ∈ [pythonDeclared, nodeDeclared], d.Paired := by
    intro d hd
    rcases List.mem_pair.mp hd with rfl | rfl
    · exact ⟨by decide, by decide, by decide⟩
    · exact ⟨by decide, by decide, by decide⟩
  have hswap : [pythonDeclared, nodeDeclared].Perm [nodeDeclared, pythonDeclared] := .swap _ _ _
  have hprintable : ∀ d, PrintableText (lineOf Runtime.standard d) := lineOf_printable
  have hpayload : payloadOf Runtime.standard ([pythonDeclared, nodeDeclared].map (lineOf Runtime.standard)) =
      payloadOf Runtime.standard ([nodeDeclared, pythonDeclared].map (lineOf Runtime.standard)) := by
    refine (payloadOf_eq_iff ?_ ?_).mpr (hswap.map _)
    · simp [hprintable]
    · simp [hprintable]
  have hx : List.Forall₂ Declares [recordWith [] pythonDeclared,
      recordWith [("source", .str "pyproject.toml")] nodeDeclared] [pythonDeclared, nodeDeclared] :=
    .cons ⟨rfl, rfl, rfl⟩ (.cons ⟨rfl, rfl, rfl⟩ .nil)
  have hy : List.Forall₂ Declares [recordWith [] nodeDeclared, recordWith [] pythonDeclared]
      [nodeDeclared, pythonDeclared] :=
    .cons ⟨rfl, rfl, rfl⟩ (.cons ⟨rfl, rfl, rfl⟩ .nil)
  exact ((fingerprint_eq_iff hx hy fun _ => hpayload).2.2 hpaired
    fun d hd => hpaired d (hswap.mem_iff.mpr hd)).mpr hswap

/-- A name with the two surrogates of U+1F600, and one with that character. -/
def pairDeclared : Declared := ⟨"node", [0xD83D, 0xDE00], "1"⟩

def astralDeclared : Declared := ⟨"node", [0x1F600], "1"⟩

/-- The two are different texts, but they have one fingerprint under every hash. -/
theorem surrogates_share_fingerprint :
    ¬∀ (sha256 : Str → Str) (xs ys : List Json) (ds es : List Declared),
      List.Forall₂ Declares xs ds → List.Forall₂ Declares ys es →
        NoCollision Runtime.standard sha256 ds es →
          (projectFingerprint Runtime.standard sha256 xs =
            projectFingerprint Runtime.standard sha256 ys ↔ ds.Perm es) := by
  intro h
  have hx : List.Forall₂ Declares [recordWith [] pairDeclared] [pairDeclared] :=
    .cons ⟨rfl, rfl, rfl⟩ .nil
  have hy : List.Forall₂ Declares [recordWith [] astralDeclared] [astralDeclared] :=
    .cons ⟨rfl, rfl, rfl⟩ .nil
  have hline : lineOf Runtime.standard pairDeclared = lineOf Runtime.standard astralDeclared :=
    (lineOf_joined pairDeclared).symm
  have hsame : [pairDeclared].map (lineOf Runtime.standard) =
      [astralDeclared].map (lineOf Runtime.standard) := by
    rw [List.map_singleton, List.map_singleton, hline]
  have hperm := (h sampleHash _ _ _ _ hx hy fun _ => by rw [hsame]).mp
    (by rw [projectFingerprint_eq hx, projectFingerprint_eq hy, hsame])
  have hne : pairDeclared ≠ astralDeclared := by decide
  exact hne (List.singleton_perm_singleton.mp hperm)

end DevRepro.Snapshots
