import DevRepro.Project.Compose

/-!
# Whole sections of a composed policy

`load_composed_policy` of `project/compose.py`, and the two sections that are not
merged by key.

The nearest layer that has such a section is meant to decide it.  The merge takes
it from the nearest layer, and there a section that the file lacks is already its
default: `sections_inherited_iff` says for which chains the two agree.
-/

namespace DevRepro.Project

open DevRepro.Python DevRepro.Lib

variable {π : Type} (rt : PolicyRuntime) (host : PolicyHost π)

/-! ## Loading a composed policy -/

structure PolicyLayer where
  path : Str
  depth : Nat
  label : Str
  deriving DecidableEq

structure ComposedPolicy where
  policy : Policy
  layers : List PolicyLayer
  provenance : List Provenance

/-- The `[meta] name` of a document, when it has one. -/
def metaName (data : Document) : Option Str :=
  match Dict.find? (lit "meta") data with
  | some (.table items) =>
    match Dict.find? (lit "name") items with
    | some (.str name) => if strip name = [] then none else some (strip name)
    | _ => none
  | _ => none

/-- `_label_for`. -/
def labelFor (path : π) (depth : Nat) : Except Failure Str := do
  let data ← match host.read path with
    | .ok data => .ok data
    | .error (.caught _) => .ok []
    | .error (.raised exc) => .error (.raised exc)
  return match metaName data with
    | some name => name
    | none =>
      if depth = 0 then "this project"
      else if host.parentName path = [] then host.name path else host.parentName path

/-- One turn of the loop of `load_composed_policy`. -/
def loadLayer (item : π × Nat) : Except Failure (PolicyLayer × Policy) := do
  let label ← labelFor host item.1 item.2
  let data ← loadDocument host item.1
  let policy ← policyFromToml rt data
  return (⟨host.str item.1, item.2, label⟩, policy)

/-- The composed policy of the files of a chain. -/
def composeFiles (files : List π) : Except Failure ComposedPolicy := do
  let loaded ← files.zipIdx.mapM (loadLayer rt host)
  let (merged, provenance) ← merge rt (loaded.map fun item => (item.1.label, item.2))
  return ⟨merged, loaded.map Prod.fst, provenance⟩

/-- The file to start from: the one that is named, or the nearest above the
working directory. -/
def findTarget (path : Option π) : Option π :=
  match path with
  | some path => some path
  | none => (host.ancestors.map fun dir => host.child dir policyFilename).find? host.isFile

/-- The error of a policy that is not there. -/
def noPolicy : Failure :=
  .policyError (lit "No " ++ policyFilename ++ lit " found.")
    (some "Create one in your project root; see README for the schema.")

/-- `load_composed_policy`; `none` when the fuel runs out. -/
def loadComposedPolicy [DecidableEq π] (fuel : Nat) (path : Option π) :
    Option (Except Failure ComposedPolicy) :=
  match findTarget host path with
  | none => some (.error noPolicy)
  | some target =>
    if host.isFile target then
      match chain rt host fuel target with
      | none => none
      | some (.error e) => some (.error e)
      | some (.ok files) => some (composeFiles rt host files)
    else some (.error noPolicy)

/-! ## What the files say of a section -/

/-- The documents of the chain, nearest first. -/
def ChainDocuments [DecidableEq π] (fuel : Nat) (path : Option π) (docs : List Document) : Prop :=
  ∃ target files, findTarget host path = some target ∧
    chain rt host fuel target = some (.ok files) ∧ files.mapM (loadDocument host) = .ok docs

/-- The section of the nearest document that has it, and nothing when none has. -/
def nearestSection (docs : List Document) (key : Str) : Document :=
  match docs.find? fun data => decide (declares data key) with
  | some data => sectionItems data key
  | none => []

theorem nearestSection_cons (data : Document) (rest : List Document) (key : Str) :
    nearestSection (data :: rest) key =
      if declares data key then sectionItems data key else nearestSection rest key := by
  unfold nearestSection
  rw [List.find?_cons]
  by_cases h : declares data key
  · simp [h]
  · simp [h]

/-- The section of the first document. -/
def headSection (docs : List Document) (key : Str) : Document :=
  match docs.head? with
  | some data => sectionItems data key
  | none => []

/-- A section sets no key away from its default. -/
def Plain (items : Document) (keys : List Str) (default : Bool) : Prop :=
  ∀ key ∈ keys, flag items key default = default

def osKeys : List Str := ["windows", "linux", "macos"]

def containerKeys : List Str := ["require_devcontainer", "require_compose"]

/-- The first document has the section, or the nearest of the others that has it
sets no key away from its default. -/
def NearestDecides (docs : List Document) (key : Str) (keys : List Str) (default : Bool) : Prop :=
  match docs with
  | [] => True
  | data :: rest => declares data key ∨ Plain (nearestSection rest key) keys default

theorem flag_nil (key : Str) (default : Bool) : flag [] key default = default := rfl

theorem supportedOsOf_eq_default {items : Document} :
    supportedOsOf items = supportedOsOf [] ↔ Plain items osKeys true := by
  simp [supportedOsOf, Plain, osKeys, flag_nil]

theorem containersOf_eq_default {items : Document} :
    containersOf items = containersOf [] ↔ Plain items containerKeys false := by
  simp [containersOf, Plain, containerKeys, flag_nil]

section

variable {α : Type} {read : Document → α} {keys : List Str} {default : Bool}

/-- The first document's section is that of the nearest document that has it
exactly when the nearest decides. -/
theorem headSection_iff (hread : ∀ items, read items = read [] ↔ Plain items keys default)
    (docs : List Document) (key : Str) :
    read (headSection docs key) = read (nearestSection docs key) ↔
      NearestDecides docs key keys default := by
  cases docs with
  | nil => simp [headSection, nearestSection, NearestDecides]
  | cons data rest =>
    rw [NearestDecides]
    by_cases hdecl : declares data key
    · have hsame : nearestSection (data :: rest) key = headSection (data :: rest) key := by
        rw [nearestSection_cons, if_pos hdecl]
        rfl
      rw [hsame]
      exact ⟨fun _ => Or.inl hdecl, fun _ => rfl⟩
    · have hnearest : nearestSection (data :: rest) key = nearestSection rest key := by
        rw [nearestSection_cons, if_neg hdecl]
      have hhead : headSection (data :: rest) key = [] := sectionItems_of_not_declares hdecl
      rw [hnearest, hhead, eq_comm, hread, or_iff_right hdecl]

/-- A document without the section changes the first section only from the front,
where it hides what the next one sets. -/
theorem headSection_insert_iff (hread : ∀ items, read items = read [] ↔ Plain items keys default)
    {front rest : List Document} {data : Document} {key : Str} (h : ¬declares data key) :
    read (headSection (front ++ rest) key) = read (headSection (front ++ data :: rest) key) ↔
      front ≠ [] ∨ Plain (headSection rest key) keys default := by
  cases front with
  | nil =>
    have hhead : headSection (data :: rest) key = [] := sectionItems_of_not_declares h
    rw [List.nil_append, List.nil_append, hhead, hread]
    simp
  | cons first others =>
    exact ⟨fun _ => Or.inl (List.cons_ne_nil _ _), fun _ => rfl⟩

end

/-! ## The sections of a load -/

variable {rt host}

theorem ChainDocuments.unique [DecidableEq π] {fuel : Nat} {path : Option π}
    {docs docs' : List Document} (h : ChainDocuments rt host fuel path docs)
    (h' : ChainDocuments rt host fuel path docs') : docs = docs' := by
  obtain ⟨target, files, htarget, hchain, hdocs⟩ := h
  obtain ⟨target', files', htarget', hchain', hdocs'⟩ := h'
  obtain rfl := Option.some.inj (htarget.symm.trans htarget')
  obtain rfl := Except.ok.inj (Option.some.inj (hchain.symm.trans hchain'))
  exact Except.ok.inj (hdocs.symm.trans hdocs')

/-- The policies of the loop are those of the documents. -/
theorem loadLayers_documents {items : List (π × Nat)} {loaded : List (PolicyLayer × Policy)}
    (h : items.mapM (loadLayer rt host) = .ok loaded) :
    ∃ docs, (items.map Prod.fst).mapM (loadDocument host) = .ok docs ∧
      docs.mapM (policyFromToml rt) = .ok (loaded.map Prod.snd) := by
  induction items generalizing loaded with
  | nil =>
    cases h
    exact ⟨[], rfl, rfl⟩
  | cons item rest ih =>
    rw [List.mapM_cons] at h
    obtain ⟨first, hfirst, h⟩ := bind_eq_ok.mp h
    obtain ⟨others, hothers, h⟩ := bind_eq_ok.mp h
    obtain ⟨docs, hdocs, hpolicies⟩ := ih hothers
    unfold loadLayer at hfirst
    obtain ⟨label, -, hfirst⟩ := bind_eq_ok.mp hfirst
    obtain ⟨data, hdata, hfirst⟩ := bind_eq_ok.mp hfirst
    obtain ⟨policy, hpolicy, hfirst⟩ := bind_eq_ok.mp hfirst
    refine ⟨data :: docs, ?_, ?_⟩
    · rw [List.map_cons, List.mapM_cons, hdata, hdocs]
      rfl
    · rw [List.mapM_cons, hpolicy, hpolicies, ← pure_eq_ok.mp h, ← pure_eq_ok.mp hfirst]
      rfl

/-- The merge takes the two sections from the first layer. -/
theorem merge_sections {parsed : List Layer} {merged : Policy} {provenance : List Provenance}
    (h : merge rt parsed = .ok (merged, provenance)) :
    merged.supportedOs = ((parsed.map Prod.snd).head?.getD .default).supportedOs ∧
      merged.containers = ((parsed.map Prod.snd).head?.getD .default).containers := by
  cases parsed with
  | nil =>
    cases h
    exact ⟨rfl, rfl⟩
  | cons layer rest =>
    obtain ⟨entries, -, h⟩ := bind_eq_ok.mp h
    cases pure_eq_ok.mp h
    exact ⟨rfl, rfl⟩

/-- A load takes the two sections from the first document. -/
theorem load_sections [DecidableEq π] {fuel : Nat} {path : Option π} {composed : ComposedPolicy}
    (h : loadComposedPolicy rt host fuel path = some (.ok composed)) :
    ∃ docs, ChainDocuments rt host fuel path docs ∧
      composed.policy.supportedOs = supportedOsOf (headSection docs "supported_os") ∧
      composed.policy.containers = containersOf (headSection docs "containers") := by
  unfold loadComposedPolicy at h
  cases htarget : findTarget host path with
  | none => rw [htarget] at h; cases h
  | some target =>
    rw [htarget] at h
    dsimp only at h
    split_ifs at h with hfile
    · cases hchain : chain rt host fuel target with
      | none => rw [hchain] at h; cases h
      | some result =>
        cases result with
        | error e => rw [hchain] at h; cases h
        | ok files =>
          rw [hchain, Option.some.injEq] at h
          obtain ⟨loaded, hloaded, h⟩ := bind_eq_ok.mp h
          obtain ⟨⟨merged, provenance⟩, hmerge, h⟩ := bind_eq_ok.mp h
          obtain ⟨docs, hdocs, hpolicies⟩ := loadLayers_documents hloaded
          rw [List.zipIdx_map_fst] at hdocs
          obtain ⟨hos, hcontainers⟩ := merge_sections hmerge
          refine ⟨docs, ⟨target, files, htarget, hchain, hdocs⟩, ?_⟩
          cases pure_eq_ok.mp h
          rw [List.map_map] at hos hcontainers
          rw [hos, hcontainers]
          change (((loaded.map Prod.snd).head?.getD .default).supportedOs = _) ∧
            (((loaded.map Prod.snd).head?.getD .default).containers = _)
          cases docs with
          | nil =>
            cases hpolicies' : loaded.map Prod.snd with
            | nil => exact ⟨rfl, rfl⟩
            | cons policy policies => rw [hpolicies'] at hpolicies; cases hpolicies
          | cons data rest =>
            rw [List.mapM_cons] at hpolicies
            obtain ⟨policy, hpolicy, hpolicies⟩ := bind_eq_ok.mp hpolicies
            obtain ⟨policies, -, hpolicies⟩ := bind_eq_ok.mp hpolicies
            rw [← pure_eq_ok.mp hpolicies]
            exact policyFromToml_sections rt hpolicy
    · cases h

/-- The two sections are those of the nearest file that has them exactly when the
first file of the chain has them, or nothing is set in those it hides.  One more
file without a section changes nothing behind the first one, and in front of it
exactly when the first one sets something. -/
theorem sections_inherited_iff [DecidableEq π] (rt : PolicyRuntime) (host : PolicyHost π)
    (fuel : Nat) (path : Option π) (composed : ComposedPolicy)
    (h : loadComposedPolicy rt host fuel path = some (.ok composed)) :
    ∃ docs, ChainDocuments rt host fuel path docs ∧
      (composed.policy.supportedOs = supportedOsOf (nearestSection docs "supported_os") ∧
          composed.policy.containers = containersOf (nearestSection docs "containers") ↔
        NearestDecides docs "supported_os" osKeys true ∧
          NearestDecides docs "containers" containerKeys false) ∧
      ∀ (front rest : List Document) (data : Document), docs = front ++ rest →
        ∀ (host' : PolicyHost π) (fuel' : Nat) (path' : Option π) (composed' : ComposedPolicy),
          loadComposedPolicy rt host' fuel' path' = some (.ok composed') →
          ChainDocuments rt host' fuel' path' (front ++ data :: rest) →
          (¬declares data "supported_os" →
            (composed.policy.supportedOs = composed'.policy.supportedOs ↔
              front ≠ [] ∨ Plain (headSection rest "supported_os") osKeys true)) ∧
          (¬declares data "containers" →
            (composed.policy.containers = composed'.policy.containers ↔
              front ≠ [] ∨ Plain (headSection rest "containers") containerKeys false)) := by
  obtain ⟨docs, hdocs, hos, hcontainers⟩ := load_sections h
  refine ⟨docs, hdocs, ?_, ?_⟩
  · rw [hos, hcontainers, headSection_iff (fun _ => supportedOsOf_eq_default),
      headSection_iff fun _ => containersOf_eq_default]
  · rintro front rest data rfl host' fuel' path' composed' h' hdocs'
    obtain ⟨docs', hchain', hos', hcontainers'⟩ := load_sections h'
    obtain rfl := hchain'.unique hdocs'
    rw [hos, hcontainers, hos', hcontainers']
    exact ⟨headSection_insert_iff fun _ => supportedOsOf_eq_default,
      headSection_insert_iff fun _ => containersOf_eq_default⟩

/-- A repository that says nothing of operating systems, and the organization's
road, which switches Windows off. -/
def inheritingHost : PolicyHost Nat :=
  { sampleHost with
    read := fun
      | 0 => .ok [("extends", .str "a")]
      | _ => .ok [("supported_os", .table [("windows", .bool false)])] }

theorem inheritingHost_loads : ∃ composed,
    loadComposedPolicy .standard inheritingHost 9 (some 0) = some (.ok composed) := by
  have hload : loadComposedPolicy .standard inheritingHost 9 (some 0) =
      some (composeFiles .standard inheritingHost [0, 1]) := rfl
  obtain ⟨loaded, hloaded⟩ :
      ∃ loaded, [0, 1].zipIdx.mapM (loadLayer .standard inheritingHost) = .ok loaded := ⟨_, rfl⟩
  rw [hload, composeFiles, hloaded]
  cases hlayers : loaded.map fun item => (item.1.label, item.2) with
  | nil => exact ⟨_, by dsimp only [bind, Except.bind]; rw [hlayers]; rfl⟩
  | cons layer rest => exact ⟨_, by dsimp only [bind, Except.bind]; rw [hlayers, merge_eq]; rfl⟩

/-- The composed policy supports Windows. -/
theorem repository_hides_systems : ∃ composed docs,
    loadComposedPolicy .standard inheritingHost 9 (some 0) = some (.ok composed) ∧
      ChainDocuments .standard inheritingHost 9 (some 0) docs ∧
      composed.policy.supportedOs.windows = true ∧
      (supportedOsOf (nearestSection docs "supported_os")).windows = false := by
  obtain ⟨composed, hload⟩ := inheritingHost_loads
  obtain ⟨docs, hdocs, hos, -⟩ := load_sections hload
  have hfiles : ChainDocuments .standard inheritingHost 9 (some 0)
      [[("extends", .str "a")], [("supported_os", .table [("windows", .bool false)])]] :=
    ⟨0, [0, 1], rfl, rfl, rfl⟩
  obtain rfl := hdocs.unique hfiles
  exact ⟨composed, _, hload, hfiles, by rw [hos]; rfl, rfl⟩

theorem sections_inherited_iff_hidden : ∃ composed docs,
    loadComposedPolicy .standard inheritingHost 9 (some 0) = some (.ok composed) ∧
      ChainDocuments .standard inheritingHost 9 (some 0) docs ∧
      (composed.policy.supportedOs = supportedOsOf (nearestSection docs "supported_os") ∧
          composed.policy.containers = containersOf (nearestSection docs "containers") ↔
        NearestDecides docs "supported_os" osKeys true ∧
          NearestDecides docs "containers" containerKeys false) := by
  obtain ⟨composed, hload⟩ := inheritingHost_loads
  obtain ⟨docs, hdocs, hiff, -⟩ :=
    sections_inherited_iff .standard inheritingHost 9 (some 0) composed hload
  exact ⟨composed, docs, hload, hdocs, hiff⟩

end DevRepro.Project
