import DevRepro.Diff.Engine
import DevRepro.Server.Analytics

/-!
# Setup steps

`build_setup_steps` of `exporters/bundle.py`.
-/

namespace DevRepro.Exporters

open DevRepro.Python DevRepro.Server

variable (rt : Runtime)

/-- `isinstance(entry, dict)`, for the entries of a loop. -/
def dictsOf (elems : List Json) : List (List (Str × Json)) :=
  elems.filterMap fun
    | .obj fields => some fields
    | _ => none

/-- `report.get(key) or []`, as far as its entries are dictionaries. -/
def entriesOf (report : List (Str × Json)) (key : Str) : Except Exc (List (List (Str × Json))) := do
  let elems ← iterate ((field report key).orElse (.arr []))
  return dictsOf elems

/-- `str(entry.get("name") or "")`. -/
def entryName (entry : List (Str × Json)) : Except Exc Str :=
  ((field entry "name").orElse (.str [])).toStr rt

/-- One entry of the loop over the tools. -/
def matchTool (active : List (Str × Str)) (entry : List (Str × Json)) :
    Except Exc (List (Str × Str)) := do
  let name ← entryName rt entry
  if name ≠ [] ∧ (field entry "version").truthy = true ∧
      ((field entry "is_active").truthy = true ∨ getTool active name = none) then
    let version ← (field entry "version").toStr rt
    return setTool name version active
  else return active

/-- The versions that a setup should match. -/
def setupVersions (report : List (Str × Json)) : Except Exc (List (Str × Str)) := do
  let tools ← entriesOf report "tools"
  tools.foldlM (matchTool rt) []

/-- `str(entry.get("name"))`, for the entries with a name and without a version. -/
def unversionedNames (tools : List (List (Str × Json))) : Except Exc (List Str) :=
  (tools.filter fun entry =>
    (field entry "name").truthy && !(field entry "version").truthy).mapM
      fun entry => (field entry "name").toStr rt

/-- The step about the platform. -/
def platformStep (report : List (Str × Json)) : Except Exc (List Str) := do
  let osName ← match field report "platform" with
    | .obj platform => (((dictGet? platform "os_name").getD (.str [])).orElse (.str [])).toStr rt
    | _ => .ok []
  return if osName = [] then []
    else [lit "1. Confirm you are on the same OS family as the author: " ++ osName ++ lit "."]

/-- The step about tools without a version. -/
def unversionedStep (active : List (Str × Str)) (names : List Str) : Str :=
  let unversioned := (names.dedup.filter fun name => name ∉ active.map Prod.fst).mergeSort strLe
  if unversioned = [] then "2. Every toolchain found on the author's machine reported a version."
  else
    lit "2. These resolved on the author's machine but reported no version, so pin " ++
      lit "them deliberately: " ++ join ", " unversioned ++ lit "."

/-- The step about the versions to match. -/
def versionStep (active : List (Str × Str)) : List Str :=
  if active = [] then []
  else
    let pretty := (active.mergeSort fun a b => Diff.pairLe a b).map fun item =>
      item.1 ++ lit " " ++ item.2
    [lit "3. Match tool versions where the project pins them: " ++ join ", " pretty ++ lit "."]

/-- The step about blockers. -/
def blockerStep (findings : List (List (Str × Json))) : Except Exc Str := do
  let states ← findings.mapM fun f => ((dictGet? f "state").getD (.str [])).toStr rt
  let blockers := ((findings.zip states).filter fun item => upper item.2 = "BLOCKED").map Prod.fst
  if blockers = [] then return "4. No open blockers were recorded in the sanitized report."
  else
    let ids ← (blockers.take 5).mapM fun b =>
      ((dictGet? b "rule_id").getD ((dictGet? b "id").getD (.str "?"))).toStr rt
    return lit "4. Resolve known blockers first: " ++ join "; " ids ++ lit "."

/-- `build_setup_steps`. -/
def buildSetupSteps (report : List (Str × Json)) : Except Exc (List Str) := do
  let platform ← platformStep rt report
  let tools ← entriesOf report "tools"
  let active ← tools.foldlM (matchTool rt) []
  let unversioned ← unversionedNames rt tools
  let findings ← entriesOf report "findings"
  let blockers ← blockerStep rt findings
  return platform ++ [unversionedStep active unversioned] ++ versionStep active ++ [blockers,
    "5. Run `devrepro preflight` after setup; it exits non-zero until the project is READY."]

end DevRepro.Exporters
