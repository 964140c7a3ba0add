import DevRepro.Snapshots.Store

/-!
# Migrating a snapshot

`migrate_snapshot` and `load_snapshot_any_version` of `snapshots/protocol.py`.
The digest of `hashlib` is a parameter.

The two readers support different versions.  `load_snapshot` takes version 1.0
alone and forbids the fields that a migration adds, and
`load_snapshot_any_version` takes every payload and hands it on as it is.  So a
migrated payload is read by the second reader only.
-/

namespace DevRepro.Snapshots

open DevRepro.Python

variable (rt : Runtime) (sha256 : Str → Str)

/-! ## `migrate_snapshot` -/

/-- The text of one requirement in the fingerprint. -/
def requirementLine (requirement : Json) : Except Exc Str := do
  let eco ← requirement.getD "ecosystem" .null
  let name ← requirement.getD "name" .null
  let spec ← requirement.getD "spec" .null
  dumps rt .sorted (.obj [("eco", eco), ("name", name), ("spec", spec)])

/-- `project_fingerprint`. -/
def projectFingerprint (requirements : List Json) : Except Exc Str := do
  let canon ← requirements.mapM (requirementLine rt)
  let payload ← dumps rt .sorted (.arr ((canon.mergeSort strLe).map Json.str))
  return (sha256 payload).take 16

/-- `Provenance(producer_version=…).as_dict()`. -/
def provenance (producerVersion : Str) : Json :=
  .obj [("producer", .str "devrepro-doctor"), ("producer_version", .str producerVersion),
    ("scan_mode", .str "local"), ("redacted", .bool true), ("policy_version", .null)]

/-- `d.setdefault(key, value)`. -/
def setDefault (key : Str) (value : Json) (fields : List (Str × Json)) : List (Str × Json) :=
  if key ∈ fields.map Prod.fst then fields else dictSet key value fields

/-- The provenance block, where there is none. -/
def addProvenance (fields : List (Str × Json)) : Except Exc (List (Str × Json)) :=
  if lit "provenance" ∈ fields.map Prod.fst then .ok fields
  else do
    let producerVersion ← ((dictGet? fields "devrepro_version").getD (.str [])).toStr rt
    return dictSet "provenance" (provenance producerVersion) fields

/-- The requirements that a fingerprint is made of. -/
def fingerprinted (fields : List (Str × Json)) : Option (List Json) :=
  match ((dictGet? fields "requirements_fingerprint").getD .null).orElse (.arr []) with
  | .arr (.obj first :: rest) => some (.obj first :: rest)
  | _ => none

/-- The fingerprint, where there is none. -/
def addFingerprint (fields : List (Str × Json)) : Except Exc (List (Str × Json)) :=
  if lit "project_fingerprint" ∈ fields.map Prod.fst then .ok fields
  else
    match fingerprinted fields with
    | some requirements => do
      let fingerprint ← projectFingerprint rt sha256 requirements
      return dictSet "project_fingerprint" (.str fingerprint) fields
    | none => .ok fields

/-- `migrate_snapshot`. -/
def migrateSnapshot (payload : List (Str × Json)) : Except Exc (List (Str × Json)) := do
  let version ← ((dictGet? payload "schema_version").getD (.str "1.0")).toStr rt
  if (lit "2.").isPrefixOf version then return payload
  else if ¬(lit "1.").isPrefixOf version then
    .error ⟨.valueError, lit "unsupported snapshot schema_version: " ++ version⟩
  else
    let versioned := setDefault "protocol_version" (.str "2.0")
      (dictSet "schema_version" (.str "2.0") payload)
    let described ← addProvenance rt versioned
    addFingerprint rt sha256 described

/-- `load_snapshot_any_version`, for a text. -/
def loadSnapshotAnyVersion (raw : Str) : Except Exc (List (Str × Json)) :=
  match loads rt.limits raw with
  | .error exc => .error exc
  | .ok (.obj data) => migrateSnapshot rt sha256 data
  | .ok _ => .error ⟨.typeError, "snapshot payload must be a JSON object"⟩

/-! ## What a migration keeps -/

/-- Nothing but the key is written, and the key only where it was absent. -/
structure AddsOnly (key : Str) (fields result : List (Str × Json)) : Prop where
  frame : ∀ other, other ≠ key → dictGet? result other = dictGet? fields other
  present : ∀ value, dictGet? fields key = some value → dictGet? result key = some value

theorem AddsOnly.refl (key : Str) (fields : List (Str × Json)) : AddsOnly key fields fields :=
  ⟨fun _ _ => rfl, fun _ h => h⟩

theorem addsOnly_dictSet {key : Str} {fields : List (Str × Json)} (h : key ∉ fields.map Prod.fst)
    (value : Json) : AddsOnly key fields (dictSet key value fields) := by
  refine ⟨fun other hother => dictGet?_dictSet_of_ne hother value fields, fun found hget => ?_⟩
  rw [dictGet?_eq_none.mpr h] at hget
  cases hget

/-- A field that is there is kept. -/
theorem AddsOnly.keeps {key : Str} {fields result : List (Str × Json)} (h : AddsOnly key fields result)
    {other : Str} {value : Json} (hget : dictGet? fields other = some value) :
    dictGet? result other = some value := by
  by_cases hother : other = key
  · rw [hother] at hget ⊢
    exact h.present value hget
  · rw [h.frame other hother]
    exact hget

theorem addsOnly_setDefault (key : Str) (value : Json) (fields : List (Str × Json)) :
    AddsOnly key fields (setDefault key value fields) := by
  rw [setDefault]
  split_ifs with hkey
  · exact .refl key fields
  · exact addsOnly_dictSet hkey value

variable {rt : Runtime} {sha256 : Str → Str}

theorem addsOnly_addProvenance {fields described : List (Str × Json)}
    (h : addProvenance rt fields = .ok described) :
    AddsOnly "provenance" fields described := by
  rw [addProvenance] at h
  split_ifs at h with hkey
  · cases h
    exact .refl _ fields
  · cases hversion : ((dictGet? fields "devrepro_version").getD (.str [])).toStr rt with
    | error exc =>
      rw [hversion] at h
      cases h
    | ok version =>
      rw [hversion] at h
      cases h
      exact addsOnly_dictSet hkey _

theorem addsOnly_addFingerprint {fields migrated : List (Str × Json)}
    (h : addFingerprint rt sha256 fields = .ok migrated) :
    AddsOnly "project_fingerprint" fields migrated := by
  rw [addFingerprint] at h
  split_ifs at h with hkey
  · cases h
    exact .refl _ fields
  · cases hrows : fingerprinted fields with
    | none =>
      simp only [hrows] at h
      cases h
      exact .refl _ fields
    | some rows =>
      simp only [hrows] at h
      cases hprint : projectFingerprint rt sha256 rows with
      | error exc =>
        rw [hprint] at h
        cases h
      | ok fingerprint =>
        rw [hprint] at h
        cases h
        exact addsOnly_dictSet hkey _

/-! ## When a migration succeeds -/

/-- A version text gives a provenance block. -/
theorem addProvenance_ok {fields : List (Str × Json)}
    (h : dictGet? fields "devrepro_version" = none ∨
      ∃ version, dictGet? fields "devrepro_version" = some (.str version)) :
    ∃ described, addProvenance rt fields = .ok described := by
  rw [addProvenance]
  split_ifs with hkey
  · exact ⟨fields, rfl⟩
  · rcases h with hnone | ⟨version, hversion⟩
    · rw [hnone]
      exact ⟨_, rfl⟩
    · rw [hversion]
      exact ⟨_, rfl⟩

/-- The fingerprint of the requirements can be computed. -/
def Fingerprints (rt : Runtime) (sha256 : Str → Str) (fields : List (Str × Json)) : Prop :=
  ∀ rows, fingerprinted fields = some rows → ∃ text, projectFingerprint rt sha256 rows = .ok text

theorem addFingerprint_ok {fields : List (Str × Json)} (h : Fingerprints rt sha256 fields) :
    ∃ migrated, addFingerprint rt sha256 fields = .ok migrated := by
  rw [addFingerprint]
  split_ifs with hkey
  · exact ⟨fields, rfl⟩
  · cases hrows : fingerprinted fields with
    | none => exact ⟨fields, rfl⟩
    | some rows =>
      rcases h rows hrows with ⟨text, htext⟩
      simp only [htext]
      exact ⟨_, rfl⟩

/-- A requirement whose compared fields are texts. -/
def TextRow (row : Json) : Prop :=
  ∃ items eco name spec, row = .obj items ∧ dictGet? items "ecosystem" = some (.str eco) ∧
    dictGet? items "name" = some (.str name) ∧ dictGet? items "spec" = some (.str spec)

theorem requirementLine_ok {row : Json} (h : TextRow row) :
    ∃ line, requirementLine rt row = .ok line := by
  rcases h with ⟨items, eco, name, spec, rfl, heco, hname, hspec⟩
  have hdump : dumpError rt .sorted 0
      (DumpStyle.sorted.order (.obj [("eco", .str eco), ("name", .str name), ("spec", .str spec)])) =
        none := by
    have horder : DumpStyle.sorted.order
        (.obj [("eco", .str eco), ("name", .str name), ("spec", .str spec)]) =
          .obj [("eco", .str eco), ("name", .str name), ("spec", .str spec)] := rfl
    rw [horder, dumpError_obj_eq_none]
    refine ⟨lt_of_lt_of_le (by decide) (rt.dumpsDepth_ge _), ?_⟩
    simp [dumpError]
  simp only [requirementLine, Json.getD, Json.get?, heco, hname, hspec]
  exact ⟨_, dumps_of_no_error hdump⟩

/-- A list of texts has no keys to sort. -/
theorem order_strs (style : DumpStyle) (lines : List Str) :
    style.order (.arr (lines.map Json.str)) = .arr (lines.map Json.str) := by
  have helems : sortElems (lines.map Json.str) = lines.map Json.str := by
    induction lines with
    | nil => rfl
    | cons line rest ih =>
      rw [List.map_cons, sortElems, ih]
      rfl
  rw [DumpStyle.order]
  split_ifs
  · rw [Json.sortKeys, helems]
  · rfl

theorem requirementLines_ok {rows : List Json} (h : ∀ row ∈ rows, TextRow row) :
    ∃ canon, rows.mapM (requirementLine rt) = .ok canon := by
  induction rows with
  | nil => exact ⟨[], rfl⟩
  | cons row rest ih =>
    rcases @requirementLine_ok rt _ (h row List.mem_cons_self) with ⟨line, hline⟩
    rcases ih fun other hother => h other (List.mem_cons_of_mem _ hother) with ⟨lines, hlines⟩
    refine ⟨line :: lines, ?_⟩
    rw [List.mapM_cons, hline, hlines]
    rfl

/-- Requirements with texts have a fingerprint. -/
theorem projectFingerprint_ok {rows : List Json} (h : ∀ row ∈ rows, TextRow row) :
    ∃ text, projectFingerprint rt sha256 rows = .ok text := by
  rcases @requirementLines_ok rt _ h with ⟨canon, hcanon⟩
  have hdump : dumpError rt .sorted 0
      (DumpStyle.sorted.order (.arr ((canon.mergeSort strLe).map Json.str))) = none := by
    rw [order_strs, dumpError_arr_eq_none]
    refine ⟨lt_of_lt_of_le (by decide) (rt.dumpsDepth_ge _), fun v hv => ?_⟩
    rcases List.mem_map.mp hv with ⟨line, _, rfl⟩
    rfl
  have hpayload := dumps_of_no_error hdump
  rw [projectFingerprint, hcanon]
  show ∃ text, (dumps rt .sorted (.arr ((canon.mergeSort strLe).map Json.str)) >>= fun payload =>
    (Except.ok ((sha256 payload).take 16) : Except Exc Str)) = .ok text
  rw [hpayload]
  exact ⟨_, rfl⟩

/-! ## Migrating an accepted payload -/

/-- A payload of version 1.0 is migrated when its tool version is a text and its
requirements have a fingerprint, and then only the version changes. -/
theorem migrateSnapshot_v1 {payload : List (Str × Json)}
    (hv1 : ((dictGet? payload "schema_version").getD (.str "1.0")).toStr rt = .ok (lit "1.0"))
    (hversion : dictGet? payload "devrepro_version" = none ∨
      ∃ version, dictGet? payload "devrepro_version" = some (.str version))
    (hprint : Fingerprints rt sha256 payload) :
    ∃ migrated, migrateSnapshot rt sha256 payload = .ok migrated ∧
      dictGet? migrated "schema_version" = some (.str "2.0") ∧
      ∀ key value, key ≠ lit "schema_version" → dictGet? payload key = some value →
        dictGet? migrated key = some value := by
  have hbump := fun other (hother : other ≠ lit "schema_version") =>
    dictGet?_dictSet_of_ne hother (.str "2.0") payload
  have hprotocol := addsOnly_setDefault "protocol_version" (.str "2.0")
    (dictSet "schema_version" (.str "2.0") payload)
  have hframe : ∀ key : Str, key ≠ lit "schema_version" → key ≠ lit "protocol_version" →
      dictGet? (setDefault "protocol_version" (.str "2.0")
        (dictSet "schema_version" (.str "2.0") payload)) key = dictGet? payload key := by
    intro key hkey hkey'
    rw [hprotocol.frame key hkey', hbump key hkey]
  have htool : ∃ described, addProvenance rt (setDefault "protocol_version" (.str "2.0")
      (dictSet "schema_version" (.str "2.0") payload)) = .ok described := by
    apply addProvenance_ok
    rw [hframe _ (by decide) (by decide)]
    exact hversion
  rcases htool with ⟨described, hdescribed⟩
  have hprovenance := addsOnly_addProvenance hdescribed
  have hrows : fingerprinted described = fingerprinted payload := by
    rw [fingerprinted, fingerprinted, hprovenance.frame _ (by decide),
      hframe _ (by decide) (by decide)]
  have hfinal : ∃ migrated, addFingerprint rt sha256 described = .ok migrated := by
    apply addFingerprint_ok
    intro rows h
    exact hprint rows (hrows ▸ h)
  rcases hfinal with ⟨migrated, hmigrated⟩
  have hfingerprint := addsOnly_addFingerprint hmigrated
  refine ⟨migrated, ?_, ?_, ?_⟩
  · rw [migrateSnapshot, hv1]
    show (addProvenance rt _ >>= _) = _
    rw [hdescribed]
    exact hmigrated
  · exact hfingerprint.keeps (hprovenance.keeps (hprotocol.keeps (dictGet?_dictSet_self _ _ _)))
  · intro key value hkey hget
    rw [← hbump key hkey] at hget
    exact hfingerprint.keeps (hprovenance.keeps (hprotocol.keeps hget))

/-- A payload of version 2.0 is returned as it is. -/
theorem migrateSnapshot_v2 {payload : List (Str × Json)}
    (h : dictGet? payload "schema_version" = some (.str "2.0")) :
    migrateSnapshot rt sha256 payload = .ok payload := by
  rw [migrateSnapshot, h]
  rfl

/-! ## The two readers -/

/-- Validation accepts texts only, where the type is `str`. -/
structure ReadsTexts (validate : Json → Except Str Snapshot) : Prop where
  version : ∀ fields s, validate (.obj fields) = .ok s →
    ∃ version, dictGet? fields "devrepro_version" = some (.str version)
  requirements : ∀ fields s found, validate (.obj fields) = .ok s →
    dictGet? fields "requirements_fingerprint" = some found →
      ∃ rows, found = .arr rows ∧ ∀ row ∈ rows, TextRow row

/-- A shared field of an export is still there after `coerce`. -/
theorem dictGet?_coerce {data : List (Str × Json)} {key : Str} {value : Json}
    (hkey : key ∈ sharedFields) (hget : dictGet? data key = some value) :
    dictGet? (coerce data) key = some value := by
  have hfilter : dictGet? (data.filter fun item => item.1 ∈ sharedFields) key = some value := by
    rw [dictGet?, List.find?_filter, ← hget, dictGet?]
    congr 2
    funext item
    by_cases hitem : item.1 = key
    · simp [hitem, hkey]
    · simp [hitem]
  rw [coerce]
  split_ifs
  · exact hfilter
  · rw [dictGet?, List.find?_append]
    rw [dictGet?, Option.map_eq_some_iff] at hfilter
    rcases hfilter with ⟨item, hfind, hvalue⟩
    rw [hfind]
    exact congrArg some hvalue

variable {validate : Json → Except Str Snapshot} {text : Str} {payload : List (Str × Json)}
  {s : Snapshot}

/-- What `load_snapshot` accepts: version 1.0, and a payload that is valid as it
stands or as an export. -/
theorem loadSnapshot_accepts (hread : loads rt.limits text = .ok (.obj payload))
    (haccept : loadSnapshot rt validate text = .ok s) :
    ((dictGet? payload "schema_version").getD (.str "?")).toStr rt = .ok (lit "1.0") ∧
      (validate (.obj payload) = .ok s ∨ validate (.obj (coerce payload)) = .ok s) := by
  simp only [loadSnapshot, hread] at haccept
  cases hversion : ((dictGet? payload "schema_version").getD (.str "?")).toStr rt with
  | error exc =>
    rw [hversion] at haccept
    cases haccept
  | ok version =>
    simp only [hversion] at haccept
    by_cases hsupported : version = lit "1.0"
    swap
    · rw [if_pos hsupported] at haccept
      cases haccept
    rw [if_neg (not_not_intro hsupported)] at haccept
    refine ⟨by rw [hsupported], ?_⟩
    cases hvalid : validate (.obj payload) with
    | ok snapshot =>
      rw [hvalid] at haccept
      cases haccept
      exact Or.inl rfl
    | error reason =>
      simp only [hvalid] at haccept
      split_ifs at haccept with hexport
      cases hcoerced : validate (.obj (coerce payload)) with
      | ok snapshot =>
        rw [hcoerced] at haccept
        cases haccept
        exact Or.inr rfl
      | error other =>
        rw [hcoerced] at haccept
        cases haccept

/-- A payload that is valid as it stands has a fingerprint. -/
theorem fingerprints_of_valid (htexts : ReadsTexts validate)
    (hvalid : validate (.obj payload) = .ok s) : Fingerprints rt sha256 payload := by
  intro rows hrows
  apply projectFingerprint_ok
  rw [fingerprinted] at hrows
  cases hfound : dictGet? payload "requirements_fingerprint" with
  | none =>
    rw [hfound] at hrows
    cases hrows
  | some found =>
    rcases htexts.requirements payload s found hvalid hfound with ⟨declared, rfl, htext⟩
    rw [hfound, Option.getD_some, Json.orElse] at hrows
    cases declared with
    | nil => cases hrows
    | cons first rest =>
      rcases htext first List.mem_cons_self with ⟨items, _, _, _, hfirst, _⟩
      rw [hfirst] at hrows htext
      cases hrows
      exact htext

/-- An accepted payload, unless it is an export with requirements that have no
fingerprint, is migrated.  Nothing but its version changes, a second migration
changes nothing, `load_snapshot` refuses a file of the result, and
`load_snapshot_any_version` returns the result from it. -/
theorem migrated_payload (hread : loads rt.limits text = .ok (.obj payload))
    (haccept : loadSnapshot rt validate text = .ok s) (htexts : ReadsTexts validate)
    (hprint : (∃ s', validate (.obj payload) = .ok s') ∨ Fingerprints rt sha256 payload) :
    ∃ migrated, migrateSnapshot rt sha256 payload = .ok migrated ∧
      (∀ key value, key ≠ lit "schema_version" → dictGet? payload key = some value →
        dictGet? migrated key = some value) ∧
      migrateSnapshot rt sha256 migrated = .ok migrated ∧
      ∀ file, loads rt.limits file = .ok (.obj migrated) →
        loadSnapshot rt validate file =
          .error (schemaError (lit "unsupported snapshot schema_version " ++
            rt.strRepr (lit "2.0") ++ lit " (supported: ('1.0',))")) ∧
        loadSnapshotAnyVersion rt sha256 file = .ok migrated := by
  rcases loadSnapshot_accepts hread haccept with ⟨hsupported, hvalid⟩
  have hv1 : ((dictGet? payload "schema_version").getD (.str "1.0")).toStr rt = .ok (lit "1.0") := by
    cases hfound : dictGet? payload "schema_version" with
    | none => rfl
    | some found =>
      rw [hfound] at hsupported
      exact hsupported
  have hversion : dictGet? payload "devrepro_version" = none ∨
      ∃ version, dictGet? payload "devrepro_version" = some (.str version) := by
    rcases hvalid with hplain | hexport
    · exact Or.inr (htexts.version payload s hplain)
    · rcases htexts.version (coerce payload) s hexport with ⟨version, hcoerced⟩
      cases hfound : dictGet? payload "devrepro_version" with
      | none => exact Or.inl rfl
      | some found =>
        rw [dictGet?_coerce (by decide) hfound] at hcoerced
        exact Or.inr ⟨version, hcoerced⟩
  have hfingerprints : Fingerprints rt sha256 payload := by
    rcases hprint with ⟨s', hplain⟩ | hprint
    · exact fingerprints_of_valid htexts hplain
    · exact hprint
  rcases migrateSnapshot_v1 hv1 hversion hfingerprints with ⟨migrated, hmigrated, htwo, hkept⟩
  refine ⟨migrated, hmigrated, hkept, migrateSnapshot_v2 htwo, fun file hfile => ⟨?_, ?_⟩⟩
  · have hother : lit "2.0" ≠ lit "1.0" := by decide
    simp only [loadSnapshot, hfile, htwo, Option.getD_some, Json.toStr, ne_eq, hother,
      not_false_eq_true, if_true]
  · simp only [loadSnapshotAnyVersion, hfile]
    exact migrateSnapshot_v2 htwo

namespace Sample

/-- A snapshot of a bare machine. -/
def bare : Snapshot :=
  ⟨"1.0", "2026-01-01T00:00:00Z", "0.2.0", ⟨"Linux", "6.5", "x86_64", none, none, false⟩, [], none,
    [], [], none, none, none, [], none, []⟩

/-- The smallest payload of the snapshot. -/
def barePayload : List (Str × Json) :=
  [("schema_version", .str "1.0"), ("created_at", .str "2026-01-01T00:00:00Z"),
    ("devrepro_version", .str "0.2.0"), ("platform", bare.platform.modelDump), ("privacy", .obj [])]

/-- The payload after migration. -/
def migrated : List (Str × Json) :=
  [("schema_version", .str "2.0"), ("created_at", .str "2026-01-01T00:00:00Z"),
    ("devrepro_version", .str "0.2.0"), ("platform", bare.platform.modelDump), ("privacy", .obj []),
    ("protocol_version", .str "2.0"), ("provenance", provenance "0.2.0")]

/-- A validation that accepts the fields of the snapshot without requirements. -/
def onlyBare : Json → Except Str Snapshot
  | .obj fields =>
    match dictGet? fields "devrepro_version", dictGet? fields "requirements_fingerprint" with
    | some (.str _), none =>
      if ∀ item ∈ fields, item.1 ∈ snapshotFields then .ok bare
      else .error "Extra inputs are not permitted"
    | _, _ => .error "Input should be a valid string"
  | _ => .error "Input should be a valid dictionary"

theorem onlyBare_ok {fields : List (Str × Json)} {s : Snapshot}
    (h : onlyBare (.obj fields) = .ok s) :
    (∃ version, dictGet? fields "devrepro_version" = some (.str version)) ∧
      dictGet? fields "requirements_fingerprint" = none := by
  simp only [onlyBare] at h
  split at h
  · rename_i version hversion hrequirements
    exact ⟨⟨version, hversion⟩, hrequirements⟩
  · cases h

theorem onlyBare_readsTexts : ReadsTexts onlyBare := by
  constructor
  · intro fields s h
    exact (onlyBare_ok h).1
  · intro fields s found h hfound
    rw [(onlyBare_ok h).2] at hfound
    cases hfound

theorem onlyBare_forbidsExtra : ForbidsExtra onlyBare := by
  intro fields ⟨item, hitem, hname⟩
  simp only [onlyBare]
  split
  · exact ⟨_, if_neg fun hall => hname (hall item hitem)⟩
  · exact ⟨_, rfl⟩

/-- A file of some fields. -/
def file (fields : List (Str × Json)) : Str :=
  dumpText Runtime.standard .plain 0 (.obj fields)

theorem bare_reads : loads Runtime.standard.limits (file barePayload) = .ok (.obj barePayload) :=
  loads_dumpText _ _ (readable_of_check (by decide +kernel))

theorem migrated_reads : loads Runtime.standard.limits (file migrated) = .ok (.obj migrated) :=
  loads_dumpText _ _ (readable_of_check (by decide +kernel))

theorem bare_valid : onlyBare (.obj barePayload) = .ok bare := rfl

theorem bare_accepted : loadSnapshot Runtime.standard onlyBare (file barePayload) = .ok bare := by
  have hversion : dictGet? barePayload "schema_version" = some (.str "1.0") := rfl
  simp only [loadSnapshot, bare_reads, hversion, Option.getD_some, Json.toStr, ne_eq,
    not_true_eq_false, if_false, bare_valid]

end Sample

theorem migrated_payload_sample :
    ∃ migrated, migrateSnapshot Runtime.standard (fun _ => []) Sample.barePayload = .ok migrated ∧
      (∀ key value, key ≠ lit "schema_version" → dictGet? Sample.barePayload key = some value →
        dictGet? migrated key = some value) ∧
      migrateSnapshot Runtime.standard (fun _ => []) migrated = .ok migrated ∧
      ∀ file, loads Runtime.standard.limits file = .ok (.obj migrated) →
        loadSnapshot Runtime.standard Sample.onlyBare file =
          .error (schemaError (lit "unsupported snapshot schema_version " ++
            Runtime.standard.strRepr (lit "2.0") ++ lit " (supported: ('1.0',))")) ∧
        loadSnapshotAnyVersion Runtime.standard (fun _ => []) file = .ok migrated :=
  migrated_payload Sample.bare_reads Sample.bare_accepted Sample.onlyBare_readsTexts
    (Or.inl ⟨Sample.bare, Sample.bare_valid⟩)

/-- The reader that accepted a payload does not accept what it is migrated to. -/
theorem migrated_file_refused :
    ¬∀ (rt : Runtime) (sha256 : Str → Str) (validate : Json → Except Str Snapshot) (text file : Str)
      (payload migrated : List (Str × Json)) (s : Snapshot), ForbidsExtra validate →
        ReadsTexts validate → loads rt.limits text = .ok (.obj payload) →
          loadSnapshot rt validate text = .ok s → migrateSnapshot rt sha256 payload = .ok migrated →
            loads rt.limits file = .ok (.obj migrated) →
              ∃ s', loadSnapshot rt validate file = .ok s' ∧ s'.platform = s.platform ∧
                s'.tools = s.tools ∧ s'.requirementsFingerprint = s.requirementsFingerprint := by
  intro h
  have hmigrate : migrateSnapshot Runtime.standard (fun _ => []) Sample.barePayload =
      .ok Sample.migrated := rfl
  rcases h _ _ _ _ _ _ _ _ Sample.onlyBare_forbidsExtra Sample.onlyBare_readsTexts
    Sample.bare_reads Sample.bare_accepted hmigrate Sample.migrated_reads with
    ⟨s', hload, _⟩
  have hversion : dictGet? Sample.migrated "schema_version" = some (.str "2.0") := rfl
  have hother : lit "2.0" ≠ lit "1.0" := by decide
  simp only [loadSnapshot, Sample.migrated_reads, hversion, Option.getD_some, Json.toStr, ne_eq,
    hother, not_false_eq_true, if_true] at hload
  cases hload

end DevRepro.Snapshots
