import DevRepro.Lib.Dict
import DevRepro.Python.Json

/-!
# Policy files

`project/policy.py`: a parsed `.devrepro.toml` and the `Policy` that is read from
it.

A file is the document that `tomllib.loads` gives.  `_policy_from_toml` fills in
a default for each section that a file lacks, so its policy does not tell whether
the file has the section; `declares` asks the document.
-/

namespace DevRepro.Project

open DevRepro.Python DevRepro.Lib

/-! ## Documents -/

/-- What `tomllib.loads` returns.  A date or a time is its text. -/
inductive Toml where
  | str (s : Str)
  | int (n : Int)
  | float (x : PyFloat)
  | bool (b : Bool)
  | dateTime (text : Str)
  | arr (elems : List Toml)
  | table (items : List (Str × Toml))

abbrev Document := List (Str × Toml)

/-- `bool(value)`. -/
def Toml.truthy : Toml → Bool
  | .str s => s != []
  | .int n => n != 0
  | .float x => x.truthy
  | .bool b => b
  | .dateTime _ => true
  | .arr elems => !elems.isEmpty
  | .table items => !items.isEmpty

/-- What policies take from the interpreter, next to the rest. -/
structure PolicyRuntime extends Runtime where
  /-- `str.isalnum` on one character. -/
  isAlnum : CodePoint → Bool
  /-- `str()` of a `list` or a `dict`. -/
  tomlStr : Toml → Str

/-- CPython's default budgets, where the texts that it prints are left blank. -/
def PolicyRuntime.standard : PolicyRuntime where
  toRuntime := .standard
  isAlnum := fun c => (0x30 ≤ c.val && c.val ≤ 0x39) || (0x41 ≤ c.val && c.val ≤ 0x5A) ||
    (0x61 ≤ c.val && c.val ≤ 0x7A)
  tomlStr := fun _ => []

/-- What a function of this package can raise: a `PolicyError` with its hint, or
an exception of another class. -/
inductive Failure where
  | policyError (message : Str) (hint : Option Str)
  | raised (exc : Exc)
  deriving DecidableEq

variable (rt : PolicyRuntime)

/-- `str(value)`. -/
def Toml.toStr : Toml → Except Failure Str
  | .str s => .ok s
  | .int n => if fitsDigits rt.limits n then .ok (intStr n) else .error (.raised digitsError)
  | .float x => .ok (rt.floatRepr x)
  | .bool true => .ok "True"
  | .bool false => .ok "False"
  | .dateTime text => .ok text
  | .arr elems => .ok (rt.tomlStr (.arr elems))
  | .table items => .ok (rt.tomlStr (.table items))

/-! ## Policies -/

structure PolicySupportedOS where
  windows : Bool
  linux : Bool
  macos : Bool
  deriving DecidableEq

structure PolicyContainers where
  requireDevcontainer : Bool
  requireCompose : Bool
  deriving DecidableEq

structure Policy where
  supportedOs : PolicySupportedOS
  requiredRuntimes : Dict Str Str
  requiredTools : Dict Str Str
  optionalTools : Dict Str Str
  knownBadVersions : Dict Str (List Str)
  containers : PolicyContainers
  /-- `required_env_names.names`. -/
  requiredEnvNames : List Str

/-- `PolicySupportedOS()`. -/
def PolicySupportedOS.default : PolicySupportedOS := ⟨true, true, true⟩

/-- `PolicyContainers()`. -/
def PolicyContainers.default : PolicyContainers := ⟨false, false⟩

/-! ## Reading a document -/

/-- `data.get(key) or {}`. -/
def rawSection (data : Document) (key : Str) : Toml :=
  match Dict.find? key data with
  | some value => if value.truthy then value else .table []
  | none => .table []

/-- A section that must be a table. -/
def sectionTable (data : Document) (key message : Str) : Except Failure Document :=
  match rawSection data key with
  | .table items => .ok items
  | _ => .error (.policyError message none)

/-- `bool(section.get(key, default))`. -/
def flag (items : Document) (key : Str) (default : Bool) : Bool :=
  match Dict.find? key items with
  | some value => value.truthy
  | none => default

/-- One entry of the loop of `_str_dict`. -/
def strDictEntry (key : Str) (out : Dict Str Str) (item : Str × Toml) :
    Except Failure (Dict Str Str) :=
  match item.2 with
  | .str v => .ok (out.set item.1 v)
  | _ => .error (.policyError
      (lit "[" ++ key ++ lit "]." ++ item.1 ++ lit " must be a string range like '>=3.11'") none)

/-- `_str_dict`. -/
def strDict (data : Document) (key : Str) : Except Failure (Dict Str Str) := do
  let raw ← sectionTable data key
    (lit "[" ++ key ++ lit "] must be a table of name = range strings")
  raw.foldlM (strDictEntry key) .empty

/-- One entry of the loop over `known_bad_raw`. -/
def knownBadEntry (knownBad : Dict Str (List Str)) (item : Str × Toml) :
    Except Failure (Dict Str (List Str)) :=
  match item.2 with
  | .str v => .ok (knownBad.set item.1 [v])
  | .arr elems => do
    let versions ← elems.mapM (Toml.toStr rt)
    return knownBad.set item.1 versions
  | _ => .error (.policyError
      (lit "[known_bad_versions]." ++ item.1 ++ lit " must be a string or list") none)

/-- The names of `required_env_names`. -/
def envNames (data : Document) : Except Failure (List Str) :=
  match rawSection data "required_env_names" with
  | .table items =>
    match Dict.find? (lit "names") items with
    | some (.arr elems) => elems.mapM (Toml.toStr rt)
    | _ => .ok []
  | .arr elems => elems.mapM (Toml.toStr rt)
  | _ => .ok []

/-- `n.replace("_", "").replace("-", "").isalnum()`. -/
def looksLikeName (n : Str) : Bool :=
  let letters := n.filter fun c => c != codePoint '_' && c != codePoint '-'
  letters != [] && letters.all rt.isAlnum

/-- `_names_look_like_names`.  Of the text of pydantic's error, only the part of
the validator is kept. -/
def validateNames (names : List Str) : Except Failure (List Str) :=
  match names.find? fun n => !looksLikeName rt n with
  | some n => .error (.raised
      ⟨.other "ValidationError", lit "invalid env var NAME: " ++ rt.strRepr n⟩)
  | none => .ok names

/-- `PolicySupportedOS` of a section. -/
def supportedOsOf (items : Document) : PolicySupportedOS :=
  ⟨flag items "windows" true, flag items "linux" true, flag items "macos" true⟩

/-- `PolicyContainers` of a section. -/
def containersOf (items : Document) : PolicyContainers :=
  ⟨flag items "require_devcontainer" false, flag items "require_compose" false⟩

/-- `_policy_from_toml`. -/
def policyFromToml (data : Document) : Except Failure Policy := do
  let supportedRaw ← sectionTable data "supported_os" "[supported_os] must be a table"
  let knownBadRaw ← sectionTable data "known_bad_versions"
    "[known_bad_versions] must be a table of lists"
  let knownBad ← knownBadRaw.foldlM (knownBadEntry rt) .empty
  let containersRaw ← sectionTable data "containers" "[containers] must be a table"
  let names ← envNames rt data
  let requiredRuntimes ← strDict data "required_runtimes"
  let requiredTools ← strDict data "required_tools"
  let optionalTools ← strDict data "optional_tools"
  let requiredEnvNames ← validateNames rt names
  return {
    supportedOs := supportedOsOf supportedRaw
    requiredRuntimes, requiredTools, optionalTools
    knownBadVersions := knownBad
    containers := containersOf containersRaw
    requiredEnvNames }

/-! ## What a file declares -/

/-- The file has the section. -/
def declares (data : Document) (key : Str) : Prop := (Dict.find? key data).isSome = true

instance (data : Document) (key : Str) : Decidable (declares data key) :=
  inferInstanceAs (Decidable (_ = true))

/-- The entries that a document has in a section. -/
def sectionItems (data : Document) (key : Str) : Document :=
  match rawSection data key with
  | .table items => items
  | _ => []

theorem sectionTable_eq_ok {data items : Document} {key message : Str}
    (h : sectionTable data key message = .ok items) : items = sectionItems data key := by
  unfold sectionTable at h
  unfold sectionItems
  split at h
  · cases h
    rfl
  · cases h

theorem sectionItems_of_not_declares {data : Document} {key : Str} (h : ¬declares data key) :
    sectionItems data key = [] := by
  have hnone : Dict.find? key data = none := by
    cases hf : Dict.find? key data with
    | none => rfl
    | some value => exact absurd (by rw [declares, hf]; rfl) h
  unfold sectionItems rawSection
  rw [hnone]

/-- The sections of a policy are read from the document's own sections. -/
theorem policyFromToml_sections {data : Document} {policy : Policy}
    (h : policyFromToml rt data = .ok policy) :
    policy.supportedOs = supportedOsOf (sectionItems data "supported_os") ∧
      policy.containers = containersOf (sectionItems data "containers") := by
  unfold policyFromToml at h
  obtain ⟨supportedRaw, hs, h⟩ := bind_eq_ok.mp h
  obtain ⟨knownBadRaw, -, h⟩ := bind_eq_ok.mp h
  obtain ⟨knownBad, -, h⟩ := bind_eq_ok.mp h
  obtain ⟨containersRaw, hc, h⟩ := bind_eq_ok.mp h
  obtain ⟨names, -, h⟩ := bind_eq_ok.mp h
  obtain ⟨requiredRuntimes, -, h⟩ := bind_eq_ok.mp h
  obtain ⟨requiredTools, -, h⟩ := bind_eq_ok.mp h
  obtain ⟨optionalTools, -, h⟩ := bind_eq_ok.mp h
  obtain ⟨requiredEnvNames, -, h⟩ := bind_eq_ok.mp h
  rw [← pure_eq_ok.mp h]
  rw [sectionTable_eq_ok hs, sectionTable_eq_ok hc]
  exact ⟨rfl, rfl⟩

end DevRepro.Project
