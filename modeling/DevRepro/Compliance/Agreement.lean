import DevRepro.Compliance.Documents
import DevRepro.Lib.MapM

/-!
# Documents that describe the same installations

The attestation, the bill of materials and the license inventory agree exactly when no name
has two active installations: `agree_iff`.
-/

namespace DevRepro.Compliance

open DevRepro.Python DevRepro.Lib DevRepro.Snapshots DevRepro.Rules

variable (lower sha256 : Str → Str) (report : ScanReport)

/-! ## Agreement -/

/-- The install source that a component tells. -/
def BomComponent.installSource (c : BomComponent) : Option Str :=
  (c.properties.find? fun property => decide (property.1 = lit "devrepro:install-source")).map Prod.snd

/-- What the three documents say about the tools is about the same installations. -/
structure Agree : Prop where
  attested : ∀ e ∈ toolEntries lower report, ∃ t ∈ actives report.tools e.name,
    t.version = e.version ∧ sourceText t = e.installSource
  described : ∀ name, (∃ t ∈ actives report.tools name, (readable t).isSome) →
    ∃ components, toolComponents lower sha256 report = some components ∧
      (∃ c ∈ components, c.name = name) ∧
      ∀ c ∈ components, c.name = name → ∃ e ∈ toolEntries lower report,
        e.name = name ∧ e.version = some c.version ∧ e.installSource = c.installSource
  once : (((toolchainLicenses report).tools.map fun row => row.license.tool) ++
    (toolchainLicenses report).unknown).Nodup
  licensed : ∀ row ∈ (toolchainLicenses report).tools, ∃ e ∈ toolEntries lower report,
    e.name = row.license.tool ∧ e.version = row.version

/-- No name has two active installations. -/
def OneActive : Prop :=
  ((report.tools.filter ToolInstallation.isActive).map ToolInstallation.name).Nodup

/-- The components of the bill of materials can be encoded. -/
def Writable : Prop :=
  ∀ item ∈ described report.tools, Server.Encodable item.1.name ∧ Server.Encodable item.2

variable {lower sha256 report}

/-! ## The folds -/

theorem mem_actives {tools : List ToolInstallation} {name : Str} {t : ToolInstallation} :
    t ∈ actives tools name ↔ t ∈ tools ∧ t.name = name ∧ t.isActive = true := by
  rw [actives, named, List.mem_filter, List.mem_filter, decide_eq_true_iff, and_assoc]

/-- The sources take the last active installation that has one. -/
theorem activeSources_eq (report : ScanReport) (name : Str) :
    activeSources report name = (actives report.tools name).reverse.findSome? sourceText := by
  rw [activeSources]
  generalize report.tools = tools
  induction tools using List.reverseRecOn with
  | nil => rfl
  | append_singleton tools t ih =>
    rw [List.foldl_append, actives_snoc, List.reverse_append, List.findSome?_append, ← ih]
    generalize tools.foldl recordSource (fun _ => none) = sources
    rw [List.foldl_cons, List.foldl_nil, recordSource]
    by_cases hname : t.name = name
    · rw [← hname]
      by_cases hactive : t.isActive = true
      · cases hsource : sourceText t with
        | none => simp [hactive, hsource]
        | some source =>
          have hinstall : t.installSource = some source := by
            rw [sourceText, Option.filter_eq_some_iff] at hsource
            exact hsource.1
          simp [hactive, hsource, hinstall]
      · simp [hactive]
    · rw [if_neg (c := t.name = name ∧ t.isActive = true) (fun h => hname h.1)]
      split_ifs
      · simp [Function.update_of_ne (Ne.symm hname)]
      · simp

/-- With one active installation of a name, it is the one in the list. -/
theorem actives_eq_singleton (h : OneActive report) {t : ToolInstallation} (ht : t ∈ report.tools)
    (hactive : t.isActive = true) : actives report.tools t.name = [t] := by
  have hmem : t ∈ actives report.tools t.name := mem_actives.mpr ⟨ht, rfl, hactive⟩
  have hcount : (actives report.tools t.name).length ≤ 1 := by
    have hone := List.nodup_iff_count_le_one.mp h t.name
    rw [List.count, List.countP_map, List.countP_eq_length_filter, List.filter_filter] at hone
    rw [actives, named, List.filter_filter]
    convert hone using 3
    funext other
    simp [Function.comp, Bool.and_comm, beq_eq_decide]
  cases hlist : actives report.tools t.name with
  | nil =>
    rw [hlist] at hmem
    cases hmem
  | cons other rest =>
    rw [hlist] at hmem hcount
    have hrest : rest = [] := List.length_eq_zero_iff.mp (by simpa using hcount)
    subst hrest
    rw [List.mem_singleton.mp hmem]

/-! ## The entries of the attestation -/

theorem mem_namesOf {tools : List ToolInstallation} {name : Str} :
    name ∈ namesOf tools ↔ ∃ t ∈ tools, t.name = name := by
  rw [namesOf, (ascending_perm _).mem_iff, List.mem_dedup, List.mem_map]

theorem mem_toolEntries {e : AttestedTool} :
    e ∈ toolEntries lower report ↔ ∃ t ∈ report.tools, t.isActive = true ∧
      e = ⟨t.name, (activeVersions report t.name).join,
        purlFor lower t.name (activeVersions report t.name).join, activeSources report t.name⟩ := by
  rw [toolEntries, List.mem_map]
  constructor
  · rintro ⟨name, hname, rfl⟩
    obtain ⟨t, ht, rfl⟩ := mem_namesOf.mp hname
    rw [List.mem_filter] at ht
    exact ⟨t, ht.1, ht.2, rfl⟩
  · rintro ⟨t, ht, hactive, rfl⟩
    exact ⟨t.name, mem_namesOf.mpr ⟨t, List.mem_filter.mpr ⟨ht, hactive⟩, rfl⟩, rfl⟩

/-- With one active installation of a name, the entry tells its version and source. -/
theorem entry_of_active (lower : Str → Str) (h : OneActive report) {t : ToolInstallation} (ht : t ∈ report.tools)
    (hactive : t.isActive = true) : ∃ e ∈ toolEntries lower report,
      e.name = t.name ∧ e.version = t.version ∧ e.installSource = sourceText t := by
  refine ⟨_, mem_toolEntries.mpr ⟨t, ht, hactive, rfl⟩, rfl, ?_, ?_⟩
  · show (activeVersions report t.name).join = t.version
    rw [activeVersions, activeVersions_eq, actives_eq_singleton h ht hactive]
    cases hversion : t.version <;> simp [hversion]
  · show activeSources report t.name = sourceText t
    rw [activeSources_eq, actives_eq_singleton h ht hactive]
    cases hsource : sourceText t <;> simp [hsource]

/-! ## The license inventory -/

theorem activeTools_perm (report : ScanReport) :
    (activeTools report).Perm (report.tools.filter ToolInstallation.isActive) :=
  (List.mergeSort_perm _ _).filter _

theorem licenseFor_tool {tool : Str} {license : ToolLicense} (h : licenseFor tool = some license) :
    license.tool = tool := by
  have hfound := List.find?_some h
  rwa [decide_eq_true_iff] at hfound

/-- The inventory lists the active installations, each of them once. -/
theorem listed_perm (report : ScanReport) :
    (((toolchainLicenses report).tools.map fun row => row.license.tool) ++
      (toolchainLicenses report).unknown).Perm
        ((report.tools.filter ToolInstallation.isActive).map ToolInstallation.name) := by
  have hknown : ((toolchainLicenses report).tools.map fun row => row.license.tool) =
      ((activeTools report).filter fun t => (licenseFor t.name).isSome).map ToolInstallation.name := by
    simp only [toolchainLicenses]
    generalize activeTools report = tools
    induction tools with
    | nil => rfl
    | cons t tools ih =>
      cases hlicense : licenseFor t.name with
      | none => simpa [hlicense] using ih
      | some license => simpa [hlicense, licenseFor_tool hlicense] using ih
  have hunknown : (toolchainLicenses report).unknown =
      ((activeTools report).filter fun t => !(licenseFor t.name).isSome).map ToolInstallation.name := by
    simp [toolchainLicenses]
  rw [hknown, hunknown, ← List.map_append]
  exact ((List.filter_append_perm _ _).trans (activeTools_perm report)).map _

theorem once_iff : (((toolchainLicenses report).tools.map fun row => row.license.tool) ++
    (toolchainLicenses report).unknown).Nodup ↔ OneActive report :=
  (listed_perm report).nodup_iff

theorem mem_rows {row : LicenseRow} (h : row ∈ (toolchainLicenses report).tools) :
    ∃ t ∈ report.tools, t.isActive = true ∧ t.name = row.license.tool ∧ t.version = row.version := by
  obtain ⟨t, ht, hrow⟩ := List.mem_filterMap.mp h
  obtain ⟨license, hlicense, rfl⟩ := Option.map_eq_some_iff.mp hrow
  have hmem := (activeTools_perm report).mem_iff.mp ht
  rw [List.mem_filter] at hmem
  exact ⟨t, hmem.1, hmem.2, (licenseFor_tool hlicense).symm, rfl⟩

/-! ## The bill of materials -/

/-- The active readable installation of a name stands for it. -/
theorem chosen_of_active (h : OneActive report) {t : ToolInstallation} (ht : t ∈ report.tools)
    (hactive : t.isActive = true) (hreadable : (readable t).isSome) :
    chosen (named report.tools t.name) = some t := by
  have hfind : (named report.tools t.name).find? (fun t => t.isActive && (readable t).isSome) = some t := by
    have hsingle := actives_eq_singleton h ht hactive
    rw [← List.head?_filter]
    have hfilter : (named report.tools t.name).filter (fun t => t.isActive && (readable t).isSome) =
        (actives report.tools t.name).filter fun t => (readable t).isSome := by
      rw [actives, List.filter_filter]
      exact List.filter_congr fun _ _ => Bool.and_comm _ _
    rw [hfilter, hsingle]
    simp [hreadable]
  rw [chosen, hfind]
  rfl

theorem mem_named {tools : List ToolInstallation} {name : Str} {t : ToolInstallation} :
    t ∈ named tools name ↔ t ∈ tools ∧ t.name = name := by
  rw [named, List.mem_filter, decide_eq_true_iff]

theorem mem_of_chosen {installs : List ToolInstallation} {t : ToolInstallation}
    (h : chosen installs = some t) : t ∈ installs := by
  rw [chosen] at h
  rcases Option.or_eq_some_iff.mp h with h | ⟨-, h⟩
  · rcases Option.or_eq_some_iff.mp h with h | ⟨-, h⟩
    · exact List.mem_of_find?_eq_some h
    · exact List.mem_of_find?_eq_some h
  · exact List.mem_of_mem_head? h

theorem mem_described {tools : List ToolInstallation} {t : ToolInstallation} {version : Str} :
    (t, version) ∈ described tools ↔
      chosen (named tools t.name) = some t ∧ readable t = some version := by
  rw [described, List.mem_filterMap]
  constructor
  · rintro ⟨name, -, h⟩
    obtain ⟨u, hchosen, h⟩ := Option.bind_eq_some_iff.mp h
    obtain ⟨v, hreadable, heq⟩ := Option.map_eq_some_iff.mp h
    cases heq
    have hname := (mem_named.mp (mem_of_chosen hchosen)).2
    rw [hname]
    exact ⟨hchosen, hreadable⟩
  · rintro ⟨hchosen, hreadable⟩
    have hmem := (mem_named.mp (mem_of_chosen hchosen)).1
    refine ⟨t.name, mem_namesOf.mpr ⟨t, hmem, rfl⟩, ?_⟩
    rw [hchosen, Option.bind_some, hreadable]
    rfl

theorem encodable_append_iff {a b : Str} : Server.Encodable (a ++ b) ↔ Server.Encodable a ∧ Server.Encodable b := by
  unfold Server.Encodable
  exact List.forall_mem_append

theorem bomRef_isSome (lower sha256 : Str → Str) {name version : Str} :
    (bomRef lower sha256 "tool" name version).isSome ↔ Server.Encodable name ∧ Server.Encodable version := by
  have hkind : Server.Encodable "tool" := by decide +kernel
  have hcolon : Server.Encodable ":" := by decide +kernel
  have htext : Server.Encodable (lit "tool" ++ lit ":" ++ name ++ lit ":" ++ version) ↔
      Server.Encodable name ∧ Server.Encodable version := by
    simp only [encodable_append_iff, hkind, hcolon, true_and, and_true]
  rw [bomRef, ← htext]
  split_ifs with h
  · exact iff_of_true rfl h
  · exact iff_of_false Bool.false_ne_true h

theorem properties_cons (key : Str) (value : Option Str) (rest : List (Str × Option Str)) :
    properties ((key, value) :: rest) =
      ((value.filter fun value => value ≠ []).map fun value => (lit "devrepro:" ++ key, value)).toList ++
        properties rest := by
  rw [properties, List.filterMap_cons]
  dsimp only
  cases value.filter fun value => decide (value ≠ []) with
  | none => rfl
  | some text => rfl

/-- What a component says of its installation. -/
theorem componentOf_eq_some {installs : List ToolInstallation} {t : ToolInstallation} {version : Str}
    {c : BomComponent} (h : componentOf lower sha256 installs t version = some c) :
    c.name = t.name ∧ c.version = version ∧ c.installSource = sourceText t := by
  obtain ⟨ref, -, rfl⟩ := Option.map_eq_some_iff.mp h
  refine ⟨rfl, rfl, ?_⟩
  have hother : lit "devrepro:" ++ lit "installations-found" ≠ lit "devrepro:install-source" := by
    decide
  have hnone : ∀ value : Option Str, (properties [("installations-found", value)]).find?
      (fun property => decide (property.1 = lit "devrepro:install-source")) = none := by
    intro value
    refine List.find?_eq_none.mpr fun property hproperty => ?_
    obtain ⟨item, hitem, hproperty⟩ := List.mem_filterMap.mp hproperty
    rw [List.mem_singleton.mp hitem] at hproperty
    obtain ⟨text, -, rfl⟩ := Option.map_eq_some_iff.mp hproperty
    simpa using hother
  unfold BomComponent.installSource
  dsimp only
  rw [properties_cons, List.find?_append, hnone, Option.or_none]
  change Option.map Prod.snd (List.find? _ ((sourceText t).map _).toList) = sourceText t
  cases hsource : sourceText t with
  | none => rfl
  | some source => rfl

/-- The bill of materials, component by component. -/
theorem toolComponents_eq_some {components : List BomComponent} :
    toolComponents lower sha256 report = some components ↔
      List.Forall₂ (fun item c => componentOf lower sha256 (named report.tools item.1.name) item.1
        item.2 = some c) (described report.tools) components :=
  mapM_eq_some

theorem componentOf_isSome {installs : List ToolInstallation} {t : ToolInstallation} {version : Str} :
    (∃ c, componentOf lower sha256 installs t version = some c) ↔
      Server.Encodable t.name ∧ Server.Encodable version := by
  rw [← bomRef_isSome lower sha256, ← Option.isSome_iff_exists, componentOf,
    Option.isSome_map]

theorem exists_toolComponents_iff (lower sha256 : Str → Str) :
    (∃ components, toolComponents lower sha256 report = some components) ↔ Writable report := by
  simp only [toolComponents_eq_some]
  constructor
  · rintro ⟨components, h⟩ item hitem
    have hflip : List.Forall₂ (fun c item => componentOf lower sha256
        (named report.tools item.1.name) item.1 item.2 = some c) components (described report.tools) :=
      h.flip
    obtain ⟨c, -, hc⟩ := exists_of_forall₂ hflip hitem
    exact componentOf_isSome.mp ⟨c, hc⟩
  · intro h
    exact exists_forall₂ fun item hitem => componentOf_isSome.mpr (h item hitem)

/-! ## The condition -/

/-- The three documents agree exactly when no name has two active installations, and the
bill of materials can be written if it has a readable one to describe. -/
theorem agree_iff (lower sha256 : Str → Str) (report : ScanReport) :
    Agree lower sha256 report ↔ OneActive report ∧
      ((∃ t ∈ report.tools, t.isActive = true ∧ (readable t).isSome) → Writable report) := by
  constructor
  · intro h
    refine ⟨once_iff.mp h.once, ?_⟩
    rintro ⟨t, ht, hactive, hreadable⟩
    obtain ⟨components, hcomponents, -⟩ :=
      h.described t.name ⟨t, mem_actives.mpr ⟨ht, rfl, hactive⟩, hreadable⟩
    exact (exists_toolComponents_iff lower sha256).mp ⟨components, hcomponents⟩
  · rintro ⟨hone, hwritable⟩
    refine ⟨?_, ?_, once_iff.mpr hone, ?_⟩
    · intro e he
      obtain ⟨t, ht, hactive, rfl⟩ := mem_toolEntries.mp he
      refine ⟨t, mem_actives.mpr ⟨ht, rfl, hactive⟩, ?_⟩
      dsimp only
      rw [activeVersions, activeVersions_eq, activeSources_eq, actives_eq_singleton hone ht hactive]
      cases hversion : t.version <;> cases hsource : sourceText t <;> simp [hversion, hsource]
    · rintro name ⟨t, ht, hreadable⟩
      obtain ⟨hmem, rfl, hactive⟩ := mem_actives.mp ht
      obtain ⟨components, hcomponents⟩ := (exists_toolComponents_iff lower sha256).mpr
        (hwritable ⟨t, hmem, hactive, hreadable⟩)
      obtain ⟨version, hversion⟩ := Option.isSome_iff_exists.mp hreadable
      have hchosen := chosen_of_active hone hmem hactive hreadable
      have heach := toolComponents_eq_some.mp hcomponents
      have hflip : List.Forall₂ (fun c item => componentOf lower sha256
          (named report.tools item.1.name) item.1 item.2 = some c) components (described report.tools) :=
        heach.flip
      refine ⟨components, hcomponents, ?_, ?_⟩
      · obtain ⟨c, hc, hcomponent⟩ := exists_of_forall₂ hflip (mem_described.mpr ⟨hchosen, hversion⟩)
        exact ⟨c, hc, (componentOf_eq_some hcomponent).1⟩
      · intro c hc hname
        obtain ⟨⟨u, uversion⟩, hitem, hcomponent⟩ := exists_of_forall₂ heach hc
        obtain ⟨hcname, hcversion, hcsource⟩ := componentOf_eq_some hcomponent
        obtain ⟨huchosen, hureadable⟩ := mem_described.mp hitem
        -- The component is that of the active installation.
        have hsame : u = t := by
          dsimp only at hcname
          rw [← hcname, hname] at huchosen
          exact Option.some_inj.mp (huchosen.symm.trans hchosen)
        subst hsame
        obtain ⟨e, he, hename, heversion, hesource⟩ := entry_of_active lower hone hmem hactive
        refine ⟨e, he, hename, ?_, ?_⟩
        · rw [heversion, (readable_eq_some.mp hureadable).1, hcversion]
        · rw [hesource, hcsource]
    · intro row hrow
      obtain ⟨t, ht, hactive, hname, hversion⟩ := mem_rows hrow
      obtain ⟨e, he, hename, heversion, -⟩ := entry_of_active lower hone ht hactive
      exact ⟨e, he, hename.trans hname, heversion.trans hversion⟩

def pyenvPython : ToolInstallation :=
  ⟨"python", some "3.11.9", some "~/.pyenv/shims/python", some "pyenv", true, some 0⟩

def brewPython : ToolInstallation :=
  ⟨"python", some "3.12.4", some "/opt/homebrew/bin/python3", some "brew", true, some 0⟩

/-- Two active interpreters: the attestation has the version of the first one and the source
of the second one. -/
theorem two_active_disagree :
    ¬Agree id id (Diff.Sample.reportOf [pyenvPython, brewPython]) := by
  intro h
  have hentry : (⟨"python", some "3.11.9", purlFor id "python" (some "3.11.9"), some "brew"⟩ :
      AttestedTool) ∈ toolEntries id (Diff.Sample.reportOf [pyenvPython, brewPython]) :=
    mem_toolEntries.mpr ⟨pyenvPython, List.mem_cons_self, rfl, rfl⟩
  obtain ⟨t, ht, hversion, hsource⟩ := h.attested _ hentry
  rcases List.mem_pair.mp (mem_actives.mp ht).1 with rfl | rfl
  · exact absurd hsource (by decide)
  · exact absurd hversion (by decide)

end DevRepro.Compliance
