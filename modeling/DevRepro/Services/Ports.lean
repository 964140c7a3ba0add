import DevRepro.Lib.Firsts
import DevRepro.Lib.MapM
import DevRepro.Project.Policy
import DevRepro.Python.JsonScan

/-!
# Declared ports

`collect_port_declarations` of `services/ports.py` with its three readers.  Two of them check the
range of a number, and none the shape of what it reads: `collect_ports_iff` says for which
contents of the files a list of valid ports is returned.
-/

namespace DevRepro.Services

open DevRepro.Python
open DevRepro.Lib (firsts)
open DevRepro.Project (Toml Document)

structure PortDeclaration where
  port : Int
  sourceFile : Str
  service : Option Str

/-- What is read from the interpreter, next to the rest. -/
structure PortRuntime extends Runtime where
  /-- `str.isalnum` on one character. -/
  isAlnum : CodePoint → Bool
  /-- `bytes.decode("utf-8", errors="replace")`. -/
  decodeReplacing : ByteArray → Str
  /-- `tomllib.loads`. -/
  tomlLoads : Str → Except Exc Document
  /-- `type(value).__name__` of a date or a time. -/
  dateTypeName : Str → Str

/-- The files of a project. -/
structure PortFiles where
  isFile : Str → Bool
  /-- The bytes of a file, where it can be opened. -/
  bytes : Str → Option ByteArray

def tomlDecodeError : ExcType := .other "TOMLDecodeError"

/-- The `UnicodeDecodeError` of `read_text`. -/
def unicodeDecodeError : Exc := ⟨.unicodeDecodeError, "invalid start byte"⟩

variable (rt : PortRuntime) (files : PortFiles)

/-! ## Compose files -/

/-- `[\w-]` -/
def isServiceChar (c : CodePoint) : Bool := rt.isAlnum c || c == codePoint '_' || c == codePoint '-'

/-- `re.match(r"^ \x7b2\x7d([\w-]+):\s*$", line)` -/
def serviceOf (line : Str) : Option Str :=
  let rest := line.drop 2
  let after := rest.dropWhile (isServiceChar rt)
  if startsWith line "  " && rest.takeWhile (isServiceChar rt) != [] && startsWith after ":" &&
      (after.drop 1).all isSpace then
    some (rest.takeWhile (isServiceChar rt))
  else none

/-- `\d` -/
def isDigit (c : CodePoint) : Bool := (digitValue? c).isSome

/-- `"?` -/
def skipQuote (s : Str) : Str := removePrefix s "\""

/-- `(?::\d+)?` -/
def skipTarget (s : Str) : Str :=
  if startsWith s ":" && (s.drop 1).takeWhile isDigit != [] then (s.drop 1).dropWhile isDigit else s

/-- `re.match(r'^\s*-\s*"?(\d+)(?::\d+)?"?\s*$', line)` -/
def portDigits (line : Str) : Option Str :=
  let item := line.dropWhile isSpace
  let value := skipQuote ((item.drop 1).dropWhile isSpace)
  if startsWith item "-" && value.takeWhile isDigit != [] &&
      (skipQuote (skipTarget (value.dropWhile isDigit))).all isSpace then
    some (value.takeWhile isDigit)
  else none

/-- The loop over the lines: each number of a port, with its service. -/
def composeNumbers : Option Str → List Str → List (Str × Str)
  | _, [] => []
  | current, line :: rest =>
    let current := (serviceOf rt line).or current
    match portDigits line, current with
    | some digits, some service => (service, digits) :: composeNumbers current rest
    | _, _ => composeNumbers current rest

/-- `_compose_ports`. -/
def composePorts (rel : Str) : Except Exc (List PortDeclaration) :=
  match files.bytes rel with
  | none => .ok []
  | some bytes =>
    (composeNumbers rt none (splitlines (universalNewlines (rt.decodeReplacing bytes)))).mapM
      fun item => do
        let port ← intOfStr rt.limits item.2
        return ⟨port, rel, some item.1⟩

/-! ## `devcontainer.json` -/

def inRange (port : Int) : Bool := 0 < port && port < 65536

def notIterable (typeName : Str) : Exc :=
  ⟨.typeError, lit "'" ++ typeName ++ lit "' object is not iterable"⟩

/-- The elements of `for item in raw`. -/
def iterate : Json → Except Exc (List Json)
  | .arr elems => .ok elems
  | .obj fields => .ok (fields.map fun field => .str field.1)
  | .str s => .ok (s.map fun c => .str [c])
  | other => .error (notIterable other.typeName)

/-- `[raw] if isinstance(raw, (int, str)) else raw` -/
def wrapSingle (raw : Json) : Json :=
  match raw with
  | .int _ | .bool _ | .str _ => .arr [raw]
  | _ => raw

def forwardedPorts (data : Json) : Except Exc Json := do
  let forward := (← data.get? "forwardPorts").getD .null
  let app := (← data.get? "appPort").getD .null
  return wrapSingle ((forward.orElse app).orElse (.arr []))

/-- `except ValueError: continue`, and the test of the range. -/
def portOrSkip (rel : Str) : Except Exc Int → Except Exc (List PortDeclaration)
  | .ok port => .ok (if inRange port then [⟨port, rel, none⟩] else [])
  | .error e => if e.type.isValueError then .ok [] else .error e

/-- `str(item).split(":")[0]` -/
def beforeColon (s : Str) : Str := (s.splitOn (codePoint ':')).headD []

/-- One round of the loop. -/
def itemPort (rel : Str) (item : Json) : Except Exc (List PortDeclaration) :=
  portOrSkip rel do
    let text ← item.toStr rt.toRuntime
    intOfStr rt.limits (beforeColon text)

/-- `_devcontainer_ports`. -/
def devcontainerPorts (rel : Str) : Except Exc (List PortDeclaration) :=
  match files.bytes rel with
  | none => .ok []
  | some bytes =>
    match readText bytes with
    | none => .error unicodeDecodeError
    | some text =>
      match loads rt.limits text with
      | .error e => if e.type = .jsonDecodeError then .ok [] else .error e
      | .ok data => do
        let items ← iterate (← forwardedPorts data)
        return (← items.mapM (itemPort rt rel)).flatten

/-! ## `.devrepro.toml` -/

/-- The elements of `for v in ports`. -/
def iterateToml : Toml → Except Exc (List Toml)
  | .arr elems => .ok elems
  | .table items => .ok (items.map fun item => .str item.1)
  | .str s => .ok (s.map fun c => .str [c])
  | .int _ => .error (notIterable "int")
  | .float _ => .error (notIterable "float")
  | .bool _ => .error (notIterable "bool")
  | .dateTime text => .error (notIterable (rt.dateTypeName text))

/-- `isinstance(v, int)`, of which `bool` is a kind. -/
def asInt : Toml → Option Int
  | .int n => some n
  | .bool b => some (if b then 1 else 0)
  | _ => none

def policyName : Str := ".devrepro.toml"

/-- `data.get("required_ports") or []` -/
def requiredPorts (data : Document) : Toml :=
  match DevRepro.Lib.Dict.find? (lit "required_ports") data with
  | some ports => if ports.truthy then ports else .arr []
  | none => .arr []

/-- `_policy_ports`. -/
def policyPorts : Except Exc (List PortDeclaration) :=
  if files.isFile policyName then
    match files.bytes policyName with
    | none => .ok []
    | some bytes =>
      match readText bytes with
      | none => .error unicodeDecodeError
      | some text =>
        match rt.tomlLoads text with
        | .error e => if e.type = tomlDecodeError then .ok [] else .error e
        | .ok data => do
          let items ← iterateToml rt (requiredPorts data)
          return ((items.filterMap asInt).filter inRange).map fun port => ⟨port, policyName, none⟩
  else .ok []

/-! ## All of them -/

def composeNames : List Str := ["docker-compose.yml", "docker-compose.yaml", "compose.yaml"]

def devcontainerName : Str := ".devcontainer/devcontainer.json"

/-- `if p.is_file(): ...` -/
def ifFile (name : Str) (read : Str → Except Exc (List PortDeclaration)) :
    Except Exc (List PortDeclaration) :=
  if files.isFile name then read name else .ok []

/-- What the readers give, in turn. -/
def portReaders : List (Except Exc (List PortDeclaration)) :=
  composeNames.map (fun name => ifFile files name (composePorts rt files)) ++
    [ifFile files devcontainerName (devcontainerPorts rt files), policyPorts rt files]

def PortDeclaration.key (d : PortDeclaration) : Int × Str := (d.port, d.sourceFile)

/-- `collect_port_declarations`. -/
def collectPortDeclarations : Except Exc (List PortDeclaration) := do
  let decls ← (portReaders rt files).mapM id
  return firsts PortDeclaration.key decls.flatten

structure PortStatus where
  port : Int
  free : Bool
  service : Option Str

/-- `check_port_conflicts`, where `free` tells whether a port can be bound. -/
def checkPortConflicts (free : Int → Bool) (decls : List PortDeclaration) :
    Except Exc (List PortStatus) :=
  decls.mapM fun d =>
    if 0 ≤ d.port ∧ d.port ≤ 65535 then .ok ⟨d.port, free d.port, d.service⟩
    else .error ⟨.overflowError, "bind(): port must be 0-65535."⟩

/-! ## Valid ports -/

/-- A list is returned whose ports are ports, no two of one file alike. -/
def ValidPorts : Prop :=
  ∃ decls, collectPortDeclarations rt files = .ok decls ∧
    (∀ d ∈ decls, 1 ≤ d.port ∧ d.port ≤ 65535) ∧ (decls.map PortDeclaration.key).Nodup

/-- Each number of a port in a compose file is one. -/
def ComposeFits (name : Str) : Prop :=
  ∀ bytes ∈ files.bytes name,
    ∀ item ∈ composeNumbers rt none (splitlines (universalNewlines (rt.decodeReplacing bytes))),
      ∃ port, intOfStr rt.limits item.2 = .ok port ∧ inRange port = true

/-- The field of `devcontainer.json` that counts. -/
def forwardField (fields : List (Str × Json)) : Json :=
  ((dictGet? fields "forwardPorts").getD .null).orElse ((dictGet? fields "appPort").getD .null)

/-- `str` writes a value, or raises a `ValueError`: it is not nested too deep. -/
def Writable (item : Json) : Prop :=
  ∀ e, item.toStr rt.toRuntime = .error e → e.type.isValueError = true

/-- The text is no JSON, or an object whose field is not a number with a fraction, and whose
elements `str` can write. -/
def DevcontainerFits (text : Str) : Prop :=
  match loads rt.limits text with
  | .error e => e.type = .jsonDecodeError
  | .ok data => ∃ fields, data = .obj fields ∧
      (∀ x, forwardField fields = .float x → x.truthy = false) ∧
      ∀ elems, forwardField fields = .arr elems → ∀ item ∈ elems, Writable rt item

/-- The text is no TOML, or a document whose field can be gone through. -/
def PolicyFits (text : Str) : Prop :=
  match rt.tomlLoads text with
  | .error e => e.type = tomlDecodeError
  | .ok data => ∃ items, iterateToml rt (requiredPorts data) = .ok items

/-- The files are such that every number of a port that is taken is one, and nothing else stands
where a list is read. -/
structure FilesFit : Prop where
  compose : ∀ name ∈ composeNames, files.isFile name = true → ComposeFits rt files name
  devcontainer : files.isFile devcontainerName = true → ∀ bytes ∈ files.bytes devcontainerName,
    ∃ text, readText bytes = some text ∧ DevcontainerFits rt text
  policy : files.isFile policyName = true → ∀ bytes ∈ files.bytes policyName,
    ∃ text, readText bytes = some text ∧ PolicyFits rt text

/-- A reader that returns ports. -/
def ReadsPorts (read : Except Exc (List PortDeclaration)) : Prop :=
  ∃ decls, read = .ok decls ∧ ∀ d ∈ decls, inRange d.port = true

variable {rt files}

theorem inRange_iff {port : Int} : inRange port = true ↔ 1 ≤ port ∧ port ≤ 65535 := by
  rw [inRange, Bool.and_eq_true, decide_eq_true_eq, decide_eq_true_eq]
  omega

theorem readsPorts_nil : ReadsPorts (.ok []) := ⟨[], rfl, fun _ hd => absurd hd List.not_mem_nil⟩

theorem readsPorts_error {e : Exc} : ¬ReadsPorts (.error e) := by
  rintro ⟨decls, h, -⟩
  cases h

theorem readsPorts_ifFile {name : Str} {read : Str → Except Exc (List PortDeclaration)} :
    ReadsPorts (ifFile files name read) ↔ (files.isFile name = true → ReadsPorts (read name)) := by
  rw [ifFile]
  split_ifs with h
  · exact ⟨fun hread _ => hread, fun hread => hread h⟩
  · exact iff_of_true readsPorts_nil fun hfile => absurd hfile h

theorem composePorts_iff {name : Str} :
    ReadsPorts (composePorts rt files name) ↔ ComposeFits rt files name := by
  rw [composePorts, ComposeFits]
  cases files.bytes name with
  | none => exact iff_of_true readsPorts_nil fun bytes hbytes => by cases hbytes
  | some bytes =>
    simp only [Option.mem_def, Option.some.injEq, forall_eq']
    refine (DevRepro.Lib.mapM_ok_forall_iff (P := fun d : PortDeclaration => inRange d.port = true)).trans ?_
    refine forall₂_congr fun item _ => ?_
    constructor
    · rintro ⟨d, hread, hrange⟩
      obtain ⟨port, hport, hd⟩ := bind_eq_ok.mp hread
      cases hd
      exact ⟨port, hport, hrange⟩
    · rintro ⟨port, hport, hrange⟩
      exact ⟨⟨port, name, some item.1⟩, by rw [hport]; rfl, hrange⟩

theorem readsPorts_portOrSkip {rel : Str} {parsed : Except Exc Int} :
    ReadsPorts (portOrSkip rel parsed) ↔ ∀ e, parsed = .error e → e.type.isValueError = true := by
  cases parsed with
  | ok port =>
    refine iff_of_true ⟨_, rfl, fun d hd => ?_⟩ fun e he => by cases he
    split_ifs at hd with hrange
    · rw [List.mem_singleton.mp hd]
      exact hrange
    · cases hd
  | error e =>
    rw [portOrSkip]
    split_ifs with h
    · exact iff_of_true readsPorts_nil fun e' he' => by cases he'; exact h
    · exact iff_of_false readsPorts_error fun hall => h (hall e rfl)

theorem intOfStr_error {limits : Limits} {s : Str} {e : Exc} (h : intOfStr limits s = .error e) :
    e.type.isValueError = true := by
  rw [intOfStr] at h
  split at h
  · cases h
    rfl
  · split_ifs at h
    cases h
    rfl

theorem itemPort_iff {rel : Str} {item : Json} :
    ReadsPorts (itemPort rt rel item) ↔ Writable rt item := by
  rw [itemPort, readsPorts_portOrSkip, Writable]
  refine forall_congr' fun e => ?_
  cases htext : item.toStr rt.toRuntime with
  | error e' =>
    constructor
    · intro h he
      cases he
      exact h rfl
    · intro h he
      cases he
      exact h rfl
  | ok text =>
    have hint : intOfStr rt.limits (beforeColon text) = .error e → e.type.isValueError = true :=
      intOfStr_error
    exact iff_of_true hint fun he => by cases he

/-- Elements that each give ports give them all. -/
theorem readsPorts_mapM {α : Type} {items : List α} {read : α → Except Exc (List PortDeclaration)} :
    ReadsPorts (do return (← items.mapM read).flatten) ↔ ∀ item ∈ items, ReadsPorts (read item) := by
  refine Iff.trans ?_ (DevRepro.Lib.mapM_ok_forall_iff (P := fun ds : List PortDeclaration => ∀ d ∈ ds, inRange d.port = true))
  constructor
  · rintro ⟨decls, hread, hall⟩
    obtain ⟨lists, hlists, hdecls⟩ := bind_eq_ok.mp hread
    cases hdecls
    exact ⟨lists, hlists, fun ds hds d hd => hall d (List.mem_flatten.mpr ⟨ds, hds, hd⟩)⟩
  · rintro ⟨lists, hlists, hall⟩
    refine ⟨lists.flatten, by rw [hlists]; rfl, fun d hd => ?_⟩
    obtain ⟨ds, hds, hd⟩ := List.mem_flatten.mp hd
    exact hall ds hds d hd

theorem writable_scalar {item : Json} (harr : ∀ elems, item ≠ .arr elems)
    (hobj : ∀ fields, item ≠ .obj fields) : Writable rt item := by
  intro e he
  cases item with
  | null => cases he
  | bool b => cases b <;> cases he
  | int n =>
    rw [Json.toStr] at he
    split_ifs at he
    cases he
    rfl
  | float x => cases he
  | str s => cases he
  | arr elems => exact absurd rfl (harr elems)
  | obj fields => exact absurd rfl (hobj fields)

/-- The loop over what stands in the field. -/
def fieldPorts (rt : PortRuntime) (rel : Str) (raw : Json) : Except Exc (List PortDeclaration) := do
  let items ← iterate (wrapSingle (raw.orElse (.arr [])))
  return (← items.mapM (itemPort rt rel)).flatten

theorem fieldPorts_of_items {rel : Str} {raw : Json} {items : List Json}
    (h : iterate (wrapSingle (raw.orElse (.arr []))) = .ok items) :
    ReadsPorts (fieldPorts rt rel raw) ↔ ∀ item ∈ items, Writable rt item := by
  rw [fieldPorts, h]
  refine readsPorts_mapM.trans ?_
  exact forall₂_congr fun item _ => itemPort_iff

/-- The field is read when it is no number with a fraction and its elements can be written. -/
theorem fieldPorts_iff {rel : Str} {raw : Json} :
    ReadsPorts (fieldPorts rt rel raw) ↔ (∀ x, raw = .float x → x.truthy = false) ∧
      ∀ elems, raw = .arr elems → ∀ item ∈ elems, Writable rt item := by
  have hnone : iterate (wrapSingle (raw.orElse (.arr []))) = .ok [] →
      ReadsPorts (fieldPorts rt rel raw) := fun h =>
    (fieldPorts_of_items h).mpr fun item hitem => absurd hitem List.not_mem_nil
  have hone : (∀ elems, raw ≠ .arr elems) → (∀ fields, raw ≠ .obj fields) →
      iterate (wrapSingle (raw.orElse (.arr []))) = .ok [raw] → ReadsPorts (fieldPorts rt rel raw) := by
    intro harr hobj h
    refine (fieldPorts_of_items h).mpr fun item hitem => ?_
    rw [List.mem_singleton.mp hitem]
    exact writable_scalar harr hobj
  have hother : (∀ x, raw ≠ .float x) → (∀ elems, raw ≠ .arr elems) →
      (∀ x, raw = .float x → x.truthy = false) ∧
        ∀ elems, raw = .arr elems → ∀ item ∈ elems, Writable rt item := fun hfloat harr =>
    ⟨fun x h => absurd h (hfloat x), fun elems h => absurd h (harr elems)⟩
  cases raw with
  | null => exact iff_of_true (hnone rfl) (hother (fun _ h => by cases h) (fun _ h => by cases h))
  | bool b =>
    refine iff_of_true ?_ (hother (fun _ h => by cases h) (fun _ h => by cases h))
    cases b with
    | true => exact hone (fun _ h => by cases h) (fun _ h => by cases h) rfl
    | false => exact hnone rfl
  | int n =>
    refine iff_of_true ?_ (hother (fun _ h => by cases h) (fun _ h => by cases h))
    by_cases hn : (Json.int n).truthy = true
    · exact hone (fun _ h => by cases h) (fun _ h => by cases h) (by rw [Json.orElse, if_pos hn]; rfl)
    · exact hnone (by rw [Json.orElse, if_neg hn]; rfl)
  | float x =>
    by_cases hx : x.truthy = true
    · refine iff_of_false ?_ fun h => absurd (h.1 x rfl) (by rw [hx]; decide)
      have hfail : fieldPorts rt rel (.float x) = .error (notIterable "float") := by
        rw [fieldPorts, Json.orElse, if_pos (show (Json.float x).truthy = true from hx)]
        rfl
      rw [hfail]
      exact readsPorts_error
    · refine iff_of_true (hnone ?_) ⟨fun y h => ?_, fun elems h => (by cases h)⟩
      · rw [Json.orElse, if_neg (show ¬(Json.float x).truthy = true from hx)]
        rfl
      · cases h
        exact Bool.eq_false_iff.mpr hx
  | str s =>
    refine iff_of_true ?_ (hother (fun _ h => by cases h) (fun _ h => by cases h))
    by_cases hs : (Json.str s).truthy = true
    · exact hone (fun _ h => by cases h) (fun _ h => by cases h) (by rw [Json.orElse, if_pos hs]; rfl)
    · exact hnone (by rw [Json.orElse, if_neg hs]; rfl)
  | arr elems =>
    have hitems : iterate (wrapSingle ((Json.arr elems).orElse (.arr []))) = .ok elems := by
      cases elems with
      | nil => rfl
      | cons item rest => rfl
    rw [fieldPorts_of_items hitems]
    constructor
    · exact fun h => ⟨fun x hx => (by cases hx), fun others hothers => (by cases hothers; exact h)⟩
    · exact fun h => h.2 elems rfl
  | obj fields =>
    have hitems : iterate (wrapSingle ((Json.obj fields).orElse (.arr []))) =
        .ok (fields.map fun field => .str field.1) := by
      cases fields with
      | nil => rfl
      | cons field rest => rfl
    refine iff_of_true ((fieldPorts_of_items hitems).mpr fun item hitem => ?_)
      (hother (fun _ h => by cases h) (fun _ h => by cases h))
    obtain ⟨field, -, rfl⟩ := List.mem_map.mp hitem
    exact writable_scalar (fun _ h => by cases h) fun _ h => by cases h

theorem devcontainerPorts_iff {name : Str} :
    ReadsPorts (devcontainerPorts rt files name) ↔
      ∀ bytes ∈ files.bytes name, ∃ text, readText bytes = some text ∧ DevcontainerFits rt text := by
  rw [devcontainerPorts]
  cases files.bytes name with
  | none => exact iff_of_true readsPorts_nil fun bytes hbytes => by cases hbytes
  | some bytes =>
    simp only [Option.mem_def, Option.some.injEq, forall_eq']
    cases readText bytes with
    | none => exact iff_of_false readsPorts_error fun ⟨text, h, _⟩ => by cases h
    | some text =>
      simp only [Option.some.injEq, exists_eq_left', DevcontainerFits]
      cases loads rt.limits text with
      | error e =>
        dsimp only
        split_ifs with h
        · exact iff_of_true readsPorts_nil h
        · exact iff_of_false readsPorts_error h
      | ok data =>
        cases data with
        | obj fields =>
          have hfield := @fieldPorts_iff rt name (forwardField fields)
          simp only [Json.obj.injEq, exists_eq_left']
          exact hfield
        | _ => exact iff_of_false readsPorts_error fun ⟨fields, h, _⟩ => by cases h

theorem policyPorts_iff :
    ReadsPorts (policyPorts rt files) ↔ (files.isFile policyName = true →
      ∀ bytes ∈ files.bytes policyName, ∃ text, readText bytes = some text ∧ PolicyFits rt text) := by
  rw [policyPorts]
  by_cases hfile : files.isFile policyName = true
  · rw [if_pos hfile, forall_prop_of_true hfile]
    cases files.bytes policyName with
    | none => exact iff_of_true readsPorts_nil fun bytes hbytes => by cases hbytes
    | some bytes =>
      simp only [Option.mem_def, Option.some.injEq, forall_eq']
      cases readText bytes with
      | none => exact iff_of_false readsPorts_error fun ⟨text, h, _⟩ => by cases h
      | some text =>
        simp only [Option.some.injEq, exists_eq_left', PolicyFits]
        cases rt.tomlLoads text with
        | error e =>
          dsimp only
          split_ifs with h
          · exact iff_of_true readsPorts_nil h
          · exact iff_of_false readsPorts_error h
        | ok data =>
          dsimp only
          cases iterateToml rt (requiredPorts data) with
          | error e => exact iff_of_false readsPorts_error fun ⟨items, h⟩ => by cases h
          | ok items =>
            refine iff_of_true ⟨_, rfl, fun d hd => ?_⟩ ⟨items, rfl⟩
            obtain ⟨port, hport, rfl⟩ := List.mem_map.mp hd
            exact (List.mem_filter.mp hport).2
  · rw [if_neg hfile]
    exact iff_of_true readsPorts_nil fun h => absurd h hfile

theorem collect_iff :
    ValidPorts rt files ↔ ∀ read ∈ portReaders rt files, ReadsPorts read := by
  refine Iff.trans ?_ (@readsPorts_mapM _ (portReaders rt files) id)
  constructor
  · rintro ⟨decls, hcollect, hrange, -⟩
    obtain ⟨lists, hlists, hdecls⟩ := bind_eq_ok.mp hcollect
    cases hdecls
    refine ⟨lists.flatten, by rw [hlists]; rfl, fun d hd => ?_⟩
    -- A declaration that is left out has the port of one that stays.
    have hkey : d.key ∈ (firsts PortDeclaration.key lists.flatten).map PortDeclaration.key :=
      DevRepro.Lib.keys_firsts.mpr (List.mem_map_of_mem hd)
    obtain ⟨kept, hkept, heq⟩ := List.mem_map.mp hkey
    have hport : kept.port = d.port := (Prod.mk.inj heq).1
    rw [← hport]
    exact inRange_iff.mpr (hrange kept hkept)
  · rintro ⟨decls, hread, hall⟩
    obtain ⟨lists, hlists, hdecls⟩ := bind_eq_ok.mp hread
    cases hdecls
    refine ⟨firsts PortDeclaration.key lists.flatten, by rw [collectPortDeclarations, hlists]; rfl,
      fun d hd => ?_, DevRepro.Lib.nodup_firsts _⟩
    obtain ⟨before, behind, heq, -⟩ := DevRepro.Lib.mem_firsts.mp hd
    refine inRange_iff.mp (hall d ?_)
    rw [heq]
    exact List.mem_append_right _ List.mem_cons_self

/-- Valid ports are returned exactly when the files fit what is read from them. -/
theorem collect_ports_iff (rt : PortRuntime) (files : PortFiles) :
    ValidPorts rt files ↔ FilesFit rt files := by
  rw [collect_iff, portReaders, List.forall_mem_append, List.forall_mem_map, List.forall_mem_cons,
    List.forall_mem_singleton, readsPorts_ifFile, devcontainerPorts_iff, policyPorts_iff]
  simp only [readsPorts_ifFile, composePorts_iff]
  exact ⟨fun h => ⟨h.1, h.2.1, h.2.2⟩, fun h => ⟨h.compose, h.devcontainer, h.policy⟩⟩

/-! ## Examples -/

namespace Sample

/-- An interpreter for texts in ASCII. -/
def runtime : PortRuntime where
  toRuntime := .standard
  isAlnum := fun c => (0x61 ≤ c.val && c.val ≤ 0x7A) || (0x41 ≤ c.val && c.val ≤ 0x5A) || isDigit c
  decodeReplacing := fun bytes => bytes.data.toList.map fun b => Fin.ofNat _ b.toNat
  tomlLoads := fun _ => .ok []
  dateTypeName := fun _ => "datetime"

/-- A service with the port 70000. -/
def composeText : String := "  web:\n- 70000\n"

def composeOnly : PortFiles where
  isFile := fun name => decide (name = lit "compose.yaml")
  bytes := fun _ => some ⟨(composeText.toList.map fun c => c.toNat.toUInt8).toArray⟩

end Sample

/-- The number of a compose file is not checked. -/
theorem impossible_port :
    collectPortDeclarations Sample.runtime Sample.composeOnly =
      .ok [⟨70000, "compose.yaml", some "web"⟩] ∧ ¬ValidPorts Sample.runtime Sample.composeOnly := by
  have hcollect : collectPortDeclarations Sample.runtime Sample.composeOnly =
      .ok [⟨70000, "compose.yaml", some "web"⟩] := by rfl
  refine ⟨hcollect, ?_⟩
  rintro ⟨decls, hdecls, hrange, -⟩
  rw [hcollect] at hdecls
  cases hdecls
  exact absurd (hrange _ List.mem_cons_self).2 (by decide)

end DevRepro.Services
