import DevRepro.Generators.Onboarding
import DevRepro.Project.TomlReader

/-!
# The policy draft

`generate_devrepro_toml` of `generators/__init__.py` writes the requirements of a project
into a policy file, and `_policy_from_toml` reads such a file.

Names and ranges are written as they are.  `roundTrips_exact` says which of them come back:
names that are bare keys, and ranges without quotes, backslashes and control characters.
-/

namespace DevRepro.Generators

open DevRepro.Python DevRepro.Lib DevRepro.Project

/-! ## The text -/

/-- The names that are runtimes. -/
def runtimeNames : List Str := ["python", "node", "go", "dotnet", "java", "ruby", "php", "rust"]

def isRuntimeName (name : Str) : Bool := runtimeNames.contains name

/-- `f'{k} = "{v}"'` -/
def tomlEntry (item : Str × Str) : Str :=
  item.1 ++ lit " = " ++ (lit "\"" ++ item.2 ++ lit "\"")

/-- `runtimes`, or `tools`, in the order of the names. -/
def sortedPart (requirements : Dict Str Str) (runtimes : Bool) : List (Str × Str) :=
  (requirements.items.filter fun item => isRuntimeName item.1 == runtimes).mergeSort
    fun a b => strLe a.1 b.1

def draftHead : List Str := [
  "# Generated by devrepro-doctor - REVIEW BEFORE COMMITTING.",
  "# Draft derived from detected project requirements; adjust ranges to taste.",
  "",
  "[supported_os]",
  "windows = true",
  "linux = true",
  "macos = true",
  "",
  "[required_runtimes]"]

/-- The lines of the draft. -/
def draftLines (requirements : Dict Str Str) (requiredEnvNames : List Str) (requireDocker : Bool) :
    List Str :=
  draftHead ++ (sortedPart requirements true).map tomlEntry ++ [[], lit "[required_tools]"] ++
    (sortedPart requirements false).map tomlEntry ++
    (if requireDocker && !requirements.contains "docker" then [lit "docker = \">=24\""] else []) ++
    [[]] ++
    (if requiredEnvNames = [] then [] else [
      lit "[required_env_names]",
      lit "names = [" ++
        join ", " (requiredEnvNames.map fun n => lit "\"" ++ n ++ lit "\"") ++ lit "]",
      []])

/-- `generate_devrepro_toml`. -/
def generateDevreproToml (requirements : Dict Str Str) (requiredEnvNames : List Str)
    (requireDocker : Bool) : Str :=
  join "\n" (draftLines requirements requiredEnvNames requireDocker)

/-! ## Round trips -/

variable (rt : PolicyRuntime) (otherValue : Str → Option (Toml × Str))

/-- The draft of the requirements is a policy file, and its two tables are the
requirements: each name is in the table of its kind, with its range, and no other is. -/
def RoundTrips (requirements : Dict Str Str) : Prop :=
  ∃ data policy, loadsToml otherValue (generateDevreproToml requirements [] false) = some data ∧
    policyFromToml rt data = .ok policy ∧
    ∀ name, policy.requiredRuntimes.get? name =
        (if isRuntimeName name then requirements.get? name else none) ∧
      policy.requiredTools.get? name =
        if isRuntimeName name then none else requirements.get? name

/-- The name is a bare key, and the range needs no escapes. -/
def WritableItem (item : Str × Str) : Prop := BareKey item.1 ∧ PlainString item.2

/-- All requirements can be written as they are. -/
def Writable (requirements : Dict Str Str) : Prop := ∀ item ∈ requirements.items, WritableItem item

/-- The name is a key of several parts, with dots between them. -/
def DottedItem (item : Str × Str) : Prop :=
  ∃ parts, 2 ≤ parts.length ∧ (∀ part ∈ parts, BareKey part) ∧ item.1 = join "." parts ∧
    PlainString item.2

/-- The name has a character that no key has, or the range breaks the string that it is
written into. -/
structure UnwritableItem (item : Str × Str) : Prop where
  return_free : codePoint '\r' ∉ item.1 ∧ codePoint '\r' ∉ item.2
  breaks : (∃ p d t, item.1 = p ++ d :: t ∧ (∀ c ∈ p, isBareKeyChar c = true) ∧ stopsKey d = true) ∨
    BareKey item.1 ∧ BreaksString item.2


/-! ## The policy of some tables -/

/-- The items of a table of strings. -/
def stringItems (items : List (Str × Str)) : Document := items.map fun item => (item.1, .str item.2)

theorem foldlM_strDictEntry (key : Str) (added : List (Str × Str)) (out : Dict Str Str)
    (hnodup : ((out.items ++ added).map Prod.fst).Nodup) :
    ∃ d : Dict Str Str, (stringItems added).foldlM (strDictEntry key) out = .ok d ∧
      ∀ name, d.get? name = (out.get? name).or (Dict.find? name added) := by
  induction added generalizing out with
  | nil => exact ⟨out, rfl, fun name => by simp⟩
  | cons item added ih =>
    have hk : item.1 ∉ out.items.map Prod.fst := by
      rw [List.map_append, List.nodup_append] at hnodup
      intro hmem
      exact hnodup.2.2 item.1 hmem item.1 List.mem_cons_self rfl
    have hset : (out.set item.1 item.2).items = out.items ++ [item] := put_of_absent hk
    have hnext : (((out.set item.1 item.2).items ++ added).map Prod.fst).Nodup := by
      rw [hset, List.append_assoc]
      exact hnodup
    obtain ⟨d, hd, hget⟩ := ih (out.set item.1 item.2) hnext
    refine ⟨d, hd, fun name => ?_⟩
    rw [hget, Dict.get?_set, Dict.find?_cons]
    by_cases hname : name = item.1
    · subst hname
      have hnone : out.get? item.1 = none := Dict.find?_eq_none hk
      rw [if_pos rfl, if_pos rfl, hnone]
      rfl
    · rw [if_neg hname, if_neg (Ne.symm hname)]

/-- `_str_dict` of a table of strings. -/
theorem strDict_strings {data : Document} {key : Str} {items : List (Str × Str)}
    (hdata : Dict.find? key data = some (.table (stringItems items)))
    (hnodup : (items.map Prod.fst).Nodup) :
    ∃ d : Dict Str Str, strDict data key = .ok d ∧ ∀ name, d.get? name = Dict.find? name items := by
  have hraw : rawSection data key = .table (stringItems items) := by
    rw [rawSection, hdata]
    cases items with
    | nil => rfl
    | cons item items => rfl
  obtain ⟨d, hd, hget⟩ := foldlM_strDictEntry key items .empty hnodup
  refine ⟨d, ?_, hget⟩
  rw [strDict, sectionTable, hraw]
  exact hd

/-- The tables of a draft. -/
def draftTables (runtimes tools : List (Str × Str)) : List (Str × Document) := [
  ("supported_os", [("windows", .bool true), ("linux", .bool true), ("macos", .bool true)]),
  ("required_runtimes", stringItems runtimes),
  ("required_tools", stringItems tools)]

theorem policyFromToml_draft {runtimes tools : List (Str × Str)}
    (hruntimes : (runtimes.map Prod.fst).Nodup) (htools : (tools.map Prod.fst).Nodup) :
    ∃ policy, policyFromToml rt
        ((draftTables runtimes tools).map fun table => (table.1, .table table.2)) = .ok policy ∧
      ∀ name, policy.requiredRuntimes.get? name = Dict.find? name runtimes ∧
        policy.requiredTools.get? name = Dict.find? name tools := by
  generalize hdata : (draftTables runtimes tools).map (fun table => (table.1, Toml.table table.2)) = data
  have hfindRuntimes : Dict.find? (lit "required_runtimes") data =
      some (.table (stringItems runtimes)) := by
    rw [← hdata]
    rfl
  have hfindTools : Dict.find? (lit "required_tools") data = some (.table (stringItems tools)) := by
    rw [← hdata]
    rfl
  have hnone : ∀ key ∈ ([lit "known_bad_versions", lit "containers", lit "required_env_names",
      lit "optional_tools"] : List Str), Dict.find? key data = none := by
    intro key hkey
    rw [← hdata]
    fin_cases hkey
    · rfl
    · rfl
    · rfl
    · rfl
  have hraw : ∀ key ∈ ([lit "known_bad_versions", lit "containers", lit "required_env_names",
      lit "optional_tools"] : List Str), rawSection data key = .table [] := by
    intro key hkey
    rw [rawSection, hnone key hkey]
  have hos : sectionTable data "supported_os" "[supported_os] must be a table" =
      .ok [("windows", .bool true), ("linux", .bool true), ("macos", .bool true)] := by
    rw [← hdata]
    rfl
  obtain ⟨r, hr, hgetr⟩ := strDict_strings hfindRuntimes hruntimes
  obtain ⟨t, ht, hgett⟩ := strDict_strings hfindTools htools
  have hempty : ∀ key message, rawSection data key = .table [] →
      sectionTable data key message = .ok [] := by
    intro key message h
    rw [sectionTable, h]
  have hknown : sectionTable data "known_bad_versions"
      "[known_bad_versions] must be a table of lists" = .ok [] := hempty _ _ (hraw _ (by simp))
  have hcontainers : sectionTable data "containers" "[containers] must be a table" = .ok [] :=
    hempty _ _ (hraw _ (by simp))
  have hnames : envNames rt data = .ok [] := by
    have hsection : rawSection data "required_env_names" = .table [] := hraw _ (by simp)
    rw [envNames, hsection]
    rfl
  have hoptional : strDict data "optional_tools" = .ok .empty := by
    have hsection : rawSection data "optional_tools" = .table [] := hraw _ (by simp)
    rw [strDict, hempty _ _ hsection]
    rfl
  have hvalid : validateNames rt [] = .ok [] := rfl
  let os : Document := [("windows", .bool true), ("linux", .bool true), ("macos", .bool true)]
  refine ⟨⟨supportedOsOf os, r, t, .empty, .empty, containersOf [], []⟩, ?_,
    fun name => ⟨hgetr name, hgett name⟩⟩
  rw [policyFromToml, hos, hknown, hcontainers, hnames, hoptional]
  erw [hr, ht]
  rfl

/-! ## The text of a draft -/

/-- The first lines of a draft, and what they are read as. -/
def headLines : List (Str × List TomlStatement) := [
  ("# Generated by devrepro-doctor - REVIEW BEFORE COMMITTING.", []),
  ("# Draft derived from detected project requirements; adjust ranges to taste.", []),
  ("", []),
  ("[supported_os]", [.opens ["supported_os"]]),
  ("windows = true", [.entry ["windows"] (.bool true)]),
  ("linux = true", [.entry ["linux"] (.bool true)]),
  ("macos = true", [.entry ["macos"] (.bool true)]),
  ("", []),
  ("[required_runtimes]", [.opens ["required_runtimes"]])]

/-- The lines between the two tables. -/
def middleLines : List (Str × List TomlStatement) := [
  ("", []),
  ("[required_tools]", [.opens ["required_tools"]])]

def entryLines (items : List (Str × Str)) : List (Str × List TomlStatement) :=
  items.map fun item => (tomlEntry item, [.entry (keyParts item.1) (.str item.2)])

/-- The lines of a draft, and what they are read as. -/
def readLines (runtimes tools : List (Str × Str)) : List (Str × List TomlStatement) :=
  headLines ++ entryLines runtimes ++ middleLines ++ entryLines tools

variable {otherValue}

theorem bareKey_of_all {k : Str} (hne : k ≠ []) (h : k.all isBareKeyChar = true) : BareKey k :=
  ⟨hne, fun c hc => List.all_eq_true.mp h c hc⟩

theorem readsAs_comment_text {t : Str} (h : t.all (fun c => !isIllegal c && !Project.isNewline c) = true) :
    ReadsAs otherValue (codePoint '#' :: t) [] := by
  refine readsAs_comment fun c hc => ?_
  have hc := List.all_eq_true.mp h c hc
  rw [Bool.and_eq_true, Bool.not_eq_true', Bool.not_eq_true'] at hc
  exact hc

variable (otherValue) in
/-- A line of the draft is one of the renderer's, which are read as their statements, or it
is the line of a requirement. -/
theorem readLines_cases {runtimes tools : List (Str × Str)} {line : Str × List TomlStatement}
    (hline : line ∈ readLines runtimes tools) :
    (ReadsAs otherValue line.1 line.2 ∧ codePoint '\r' ∉ line.1) ∨
      ∃ item ∈ runtimes ++ tools, line = (tomlEntry item, [.entry (keyParts item.1) (.str item.2)]) := by
  have hhead : ∀ line ∈ headLines, ReadsAs otherValue line.1 line.2 := by
    simp only [headLines, List.forall_mem_cons, List.not_mem_nil, false_imp_iff, implies_true,
      and_true]
    have hbare : ∀ k ∈ ([lit "supported_os", lit "windows", lit "linux", lit "macos",
        lit "required_runtimes"] : List Str), BareKey k := by
      intro k hk
      fin_cases hk <;> exact bareKey_of_all (by decide) (by decide)
    exact ⟨readsAs_comment_text (by decide +kernel), readsAs_comment_text (by decide +kernel),
      readsAs_blank, readsAs_opens (hbare (lit "supported_os") (by simp)),
      readsAs_true (hbare (lit "windows") (by simp)), readsAs_true (hbare (lit "linux") (by simp)),
      readsAs_true (hbare (lit "macos") (by simp)), readsAs_blank,
      readsAs_opens (hbare (lit "required_runtimes") (by simp))⟩
  have hmiddle : ∀ line ∈ middleLines, ReadsAs otherValue line.1 line.2 := by
    simp only [middleLines, List.forall_mem_cons, List.not_mem_nil, false_imp_iff, implies_true,
      and_true]
    have hbare : BareKey (lit "required_tools") := bareKey_of_all (by decide) (by decide)
    exact ⟨readsAs_blank, readsAs_opens hbare⟩
  have hreturn : ((headLines ++ middleLines).all fun line => !line.1.contains (codePoint '\r')) = true := by
    decide +kernel
  have hfixed : ∀ line ∈ headLines ++ middleLines,
      ReadsAs otherValue line.1 line.2 ∧ codePoint '\r' ∉ line.1 := by
    intro line hline
    refine ⟨(List.mem_append.mp hline).elim (hhead line) (hmiddle line), ?_⟩
    have h := List.all_eq_true.mp hreturn line hline
    simpa using h
  rw [readLines, List.mem_append, List.mem_append, List.mem_append] at hline
  rcases hline with ((hline | hline) | hline) | hline
  · exact Or.inl (hfixed line (List.mem_append_left _ hline))
  · obtain ⟨item, hitem, rfl⟩ := List.mem_map.mp hline
    exact Or.inr ⟨item, List.mem_append_left _ hitem, rfl⟩
  · exact Or.inl (hfixed line (List.mem_append_right _ hline))
  · obtain ⟨item, hitem, rfl⟩ := List.mem_map.mp hline
    exact Or.inr ⟨item, List.mem_append_right _ hitem, rfl⟩

theorem mem_readLines {runtimes tools : List (Str × Str)} {item : Str × Str}
    (hitem : item ∈ runtimes ++ tools) :
    (tomlEntry item, [TomlStatement.entry (keyParts item.1) (.str item.2)]) ∈
      readLines runtimes tools := by
  rw [readLines, List.mem_append, List.mem_append, List.mem_append]
  rcases List.mem_append.mp hitem with hitem | hitem
  · exact Or.inl (Or.inl (Or.inr (List.mem_map_of_mem hitem)))
  · exact Or.inr (List.mem_map_of_mem hitem)

/-- A requirement whose name is a key is read as its entry. -/
theorem readsAs_tomlEntry {item : Str × Str} {parts : List Str} (hne : parts ≠ [])
    (hparts : ∀ part ∈ parts, BareKey part) (hname : item.1 = join "." parts)
    (hrange : PlainString item.2) :
    ReadsAs otherValue (tomlEntry item) [.entry (keyParts item.1) (.str item.2)] := by
  rw [tomlEntry, hname, keyParts_join hne hparts]
  exact readsAs_string hne hparts hrange

theorem WritableItem.keyParts {item : Str × Str} (h : WritableItem item) :
    keyParts item.1 = [item.1] :=
  keyParts_join (List.cons_ne_nil item.1 []) (List.forall_mem_singleton.mpr h.1)

theorem WritableItem.readsAs {item : Str × Str} (h : WritableItem item) :
    ReadsAs otherValue (tomlEntry item) [.entry (Project.keyParts item.1) (.str item.2)] :=
  readsAs_tomlEntry (List.cons_ne_nil item.1 []) (List.forall_mem_singleton.mpr h.1) rfl h.2

theorem DottedItem.readsAs {item : Str × Str} (h : DottedItem item) :
    ReadsAs otherValue (tomlEntry item) [.entry (keyParts item.1) (.str item.2)] := by
  obtain ⟨parts, hlength, hparts, hname, hrange⟩ := h
  exact readsAs_tomlEntry (List.ne_nil_of_length_pos (by omega)) hparts hname hrange

theorem DottedItem.two_le {item : Str × Str} (h : DottedItem item) :
    2 ≤ (keyParts item.1).length := by
  obtain ⟨parts, hlength, hparts, hname, -⟩ := h
  rw [hname, keyParts_join (List.ne_nil_of_length_pos (by omega)) hparts]
  exact hlength

/-- A requirement that cannot be written spoils the draft. -/
theorem UnwritableItem.refuses {item : Str × Str} (h : UnwritableItem item) :
    Refuses otherValue (tomlEntry item) := by
  rcases h.breaks with ⟨p, d, t, heq, hp, hd⟩ | ⟨hkey, hbreaks⟩
  · rw [tomlEntry, heq, List.append_assoc, List.append_assoc, List.cons_append]
    exact refuses_key hp hd
  · exact refuses_string hkey hbreaks

/-- The line of a requirement holds a carriage return only where one of its texts does. -/
theorem no_return_tomlEntry {item : Str × Str} (hname : codePoint '\r' ∉ item.1)
    (hrange : codePoint '\r' ∉ item.2) : codePoint '\r' ∉ tomlEntry item := by
  intro hmem
  simp only [tomlEntry, List.mem_append] at hmem
  rcases hmem with (hmem | hmem) | (hmem | hmem) | hmem
  · exact hname hmem
  · exact absurd hmem (by decide)
  · exact absurd hmem (by decide)
  · exact hrange hmem
  · exact absurd hmem (by decide)

theorem DottedItem.return_free {item : Str × Str} (h : DottedItem item) :
    codePoint '\r' ∉ item.1 ∧ codePoint '\r' ∉ item.2 := by
  obtain ⟨parts, -, hparts, hname, hrange⟩ := h
  constructor
  · rw [hname]
    clear hname
    induction parts with
    | nil => exact List.not_mem_nil
    | cons part parts ih =>
      rw [List.forall_mem_cons] at hparts
      have hpart : codePoint '\r' ∉ part := fun hmem => absurd (hparts.1.2 _ hmem) (by decide)
      cases parts with
      | nil => exact hpart
      | cons second more =>
        intro hmem
        rcases List.mem_append.mp hmem with hmem | hmem
        · rcases List.mem_append.mp hmem with hmem | hmem
          · exact hpart hmem
          · exact absurd hmem (by decide)
        · exact ih hparts.2 hmem
  · exact fun hmem => absurd (hrange _ hmem).2.2 (by decide)

theorem WritableItem.return_free {item : Str × Str} (h : WritableItem item) :
    codePoint '\r' ∉ item.1 ∧ codePoint '\r' ∉ item.2 :=
  ⟨fun hmem => absurd (h.1.2 _ hmem) (by decide), fun hmem => absurd (h.2 _ hmem).2.2 (by decide)⟩

/-- The lines of a draft hold no carriage return where the requirements hold none. -/
theorem readLines_no_return {runtimes tools : List (Str × Str)}
    (h : ∀ item ∈ runtimes ++ tools, codePoint '\r' ∉ item.1 ∧ codePoint '\r' ∉ item.2) :
    codePoint '\r' ∉ unlines (codePoint '\n') ((readLines runtimes tools).map Prod.fst) := by
  refine no_return_unlines fun text htext => ?_
  obtain ⟨line, hline, rfl⟩ := List.mem_map.mp htext
  rcases readLines_cases (fun _ => none) hline with ⟨-, hreturn⟩ | ⟨item, hitem, rfl⟩
  · exact hreturn
  · exact no_return_tomlEntry (h item hitem).1 (h item hitem).2

/-- The statements of a draft. -/
theorem flatMap_readLines (runtimes tools : List (Str × Str)) :
    (readLines runtimes tools).flatMap Prod.snd =
      headLines.flatMap Prod.snd ++
        ((runtimes.map fun item => (keyParts item.1, Toml.str item.2)).map
          fun entry => TomlStatement.entry entry.1 entry.2) ++
        (TomlStatement.opens [lit "required_tools"] ::
          (tools.map fun item => (keyParts item.1, Toml.str item.2)).map
            fun entry => TomlStatement.entry entry.1 entry.2) := by
  have hentries : ∀ items : List (Str × Str), (entryLines items).flatMap Prod.snd =
      (items.map fun item => (keyParts item.1, Toml.str item.2)).map
        fun entry => TomlStatement.entry entry.1 entry.2 := by
    intro items
    rw [entryLines, List.flatMap_map, List.map_map, List.map_eq_flatMap]
    rfl
  rw [readLines, List.flatMap_append, List.flatMap_append, List.flatMap_append, hentries, hentries,
    List.append_assoc]
  rfl

/-- The statements of a draft that can be written are those of its tables. -/
theorem flatMap_readLines_writable {runtimes tools : List (Str × Str)}
    (h : ∀ item ∈ runtimes ++ tools, WritableItem item) :
    (readLines runtimes tools).flatMap Prod.snd =
      (draftTables runtimes tools).flatMap tableStatements := by
  have hentries : ∀ items : List (Str × Str), (∀ item ∈ items, WritableItem item) →
      ((items.map fun item => (keyParts item.1, Toml.str item.2)).map
        fun entry => TomlStatement.entry entry.1 entry.2) =
          (stringItems items).map fun item => TomlStatement.entry [item.1] item.2 := by
    intro items hitems
    rw [stringItems, List.map_map, List.map_map]
    refine List.map_congr_left fun item hitem => ?_
    change TomlStatement.entry (keyParts item.1) _ = _
    rw [(hitems item hitem).keyParts]
    rfl
  rw [flatMap_readLines, hentries runtimes fun item hitem => h item (List.mem_append_left _ hitem),
    hentries tools fun item hitem => h item (List.mem_append_right _ hitem)]
  simp [headLines, draftTables, tableStatements]

/-- A draft is written from its lines. -/
theorem generateDevreproToml_eq (requirements : Dict Str Str) :
    generateDevreproToml requirements [] false =
      unlines (codePoint '\n')
        ((readLines (sortedPart requirements true) (sortedPart requirements false)).map Prod.fst) := by
  have hlines : draftLines requirements [] false =
      (readLines (sortedPart requirements true) (sortedPart requirements false)).map Prod.fst ++
        [[]] := by
    have hentries : ∀ items, (entryLines items).map Prod.fst = items.map tomlEntry := by
      intro items
      rw [entryLines, List.map_map]
      rfl
    have hdocker : (if (false && !requirements.contains "docker") = true then
        [lit "docker = \">=24\""] else []) = [] := rfl
    rw [draftLines, hdocker, readLines, List.map_append, List.map_append, List.map_append, hentries,
      hentries, List.append_nil, if_pos rfl, List.append_nil]
    rfl
  have hne : (readLines (sortedPart requirements true) (sortedPart requirements false)).map Prod.fst ≠
      [] := by
    simp [readLines, headLines]
  rw [generateDevreproToml, hlines, join_newline_nil hne]

theorem mem_sortedPart {requirements : Dict Str Str} {runtimes : Bool} {item : Str × Str} :
    item ∈ sortedPart requirements runtimes ↔
      item ∈ requirements.items ∧ isRuntimeName item.1 = runtimes := by
  rw [sortedPart, List.mem_mergeSort, List.mem_filter, beq_iff_eq]

theorem sortedPart_nodup (requirements : Dict Str Str) (runtimes : Bool) :
    ((sortedPart requirements runtimes).map Prod.fst).Nodup := by
  rw [sortedPart, ((List.mergeSort_perm _ _).map Prod.fst).nodup_iff]
  exact requirements.nodup.sublist (List.filter_sublist.map Prod.fst)

/-- A part has the ranges of its names. -/
theorem find?_sortedPart (requirements : Dict Str Str) (runtimes : Bool) (name : Str) :
    Dict.find? name (sortedPart requirements runtimes) =
      if isRuntimeName name = runtimes then requirements.get? name else none := by
  let part : Dict Str Str := ⟨sortedPart requirements runtimes, sortedPart_nodup requirements runtimes⟩
  have hpart : ∀ v, part.get? name = some v ↔
      requirements.get? name = some v ∧ isRuntimeName name = runtimes := by
    intro v
    have hitem : (name, v) ∈ part.items ↔ part.get? name = some v := Dict.mem_items_iff
    have hrequirement : (name, v) ∈ requirements.items ↔ requirements.get? name = some v :=
      Dict.mem_items_iff
    rw [← hitem, ← hrequirement]
    exact mem_sortedPart
  change part.get? name = _
  ext v
  rw [hpart]
  split_ifs with h
  · exact and_iff_left h
  · simp [h]

/-- What is read from the lines of a draft. -/
theorem documentOf_readLines {runtimes tools : List (Str × Str)}
    (h : ∀ item ∈ runtimes ++ tools, WritableItem item) (hruntimes : (runtimes.map Prod.fst).Nodup) (htools : (tools.map Prod.fst).Nodup) :
    documentOf ((readLines runtimes tools).flatMap Prod.snd) =
      some ((draftTables runtimes tools).map fun table => (table.1, .table table.2)) := by
  rw [flatMap_readLines_writable h]
  have hstrings : ∀ items : List (Str × Str), (items.map Prod.fst).Nodup →
      ((stringItems items).map Prod.fst).Nodup ∧
        ∀ item ∈ stringItems items, isContainer item.2 = false := by
    intro items hitems
    constructor
    · rw [stringItems, List.map_map]
      exact hitems
    · intro item hitem
      obtain ⟨other, -, rfl⟩ := List.mem_map.mp hitem
      rfl
  apply documentOf_tables
  · change ([lit "supported_os", lit "required_runtimes", lit "required_tools"] : List Str).Nodup
    decide
  · simp only [draftTables, List.forall_mem_cons, List.not_mem_nil, false_imp_iff, implies_true,
      and_true]
    refine ⟨⟨?_, rfl, rfl, rfl⟩, hstrings runtimes hruntimes, hstrings tools htools⟩
    change ([lit "windows", lit "linux", lit "macos"] : List Str).Nodup
    decide

/-- The requirements of a draft are those of its two parts. -/
theorem mem_parts {requirements : Dict Str Str} {item : Str × Str} :
    item ∈ sortedPart requirements true ++ sortedPart requirements false ↔
      item ∈ requirements.items := by
  rw [List.mem_append, mem_sortedPart, mem_sortedPart]
  cases isRuntimeName item.1 with
  | true => simp
  | false => simp

/-- A draft of requirements that can be written comes back. -/
theorem roundTrips_of_writable {requirements : Dict Str Str} (h : Writable requirements) :
    RoundTrips rt otherValue requirements := by
  have hnodup := sortedPart_nodup requirements
  obtain ⟨policy, hpolicy, htables⟩ := policyFromToml_draft rt (hnodup true) (hnodup false)
  have hread : ∀ line ∈ readLines (sortedPart requirements true) (sortedPart requirements false),
      ReadsAs otherValue line.1 line.2 := by
    intro line hline
    rcases readLines_cases otherValue hline with ⟨hread, -⟩ | ⟨item, hitem, rfl⟩
    · exact hread
    · exact (h item (mem_parts.mp hitem)).readsAs
  have hreturn := readLines_no_return fun item hitem => (h item (mem_parts.mp hitem)).return_free
  refine ⟨_, policy, ?_, hpolicy, fun name => ?_⟩
  · rw [generateDevreproToml_eq, loadsToml_unlines hread hreturn,
      documentOf_readLines (fun item hitem => h item (mem_parts.mp hitem)) (hnodup true) (hnodup false)]
  · obtain ⟨hruntimes, htools⟩ := htables name
    rw [hruntimes, htools, find?_sortedPart, find?_sortedPart]
    cases isRuntimeName name with
    | true => exact ⟨rfl, rfl⟩
    | false => exact ⟨rfl, rfl⟩

/-- A dotted name leaves a table in its section. -/
theorem holdsOther_of_dotted {runtimes tools : List (Str × Str)} {data : Document}
    (hdata : documentOf ((readLines runtimes tools).flatMap Prod.snd) = some data)
    (hdotted : ∃ item ∈ runtimes ++ tools, DottedItem item) :
    ∃ key nest, (key = lit "required_runtimes" ∨ key = lit "required_tools") ∧
      Dict.find? key data = some (.table nest) ∧ HoldsOther nest := by
  have hlong : ∀ items : List (Str × Str), (∃ item ∈ items, DottedItem item) →
      ∃ entry ∈ items.map fun item => (keyParts item.1, Toml.str item.2), 2 ≤ entry.1.length := by
    rintro items ⟨item, hitem, hdot⟩
    exact ⟨_, List.mem_map_of_mem hitem, hdot.two_le⟩
  rw [documentOf, flatMap_readLines, List.foldlM_append, List.foldlM_append] at hdata
  obtain ⟨out, hout, rfl⟩ := Option.map_eq_some_iff.mp hdata
  obtain ⟨middle, hmiddle, htools⟩ := Option.bind_eq_some_iff.mp hout
  obtain ⟨head, hhead, hruntimes⟩ := Option.bind_eq_some_iff.mp hmiddle
  have hstart : head.header = [lit "required_runtimes"] ∧
      Dict.find? (lit "required_runtimes") head.data = some (.table []) ∧
      Dict.find? (lit "required_tools") head.data = none := by
    cases hhead
    exact ⟨rfl, rfl, rfl⟩
  have hdistinct : lit "required_tools" ≠ lit "required_runtimes" := by decide
  obtain ⟨first, hfirst, hother, hkeep⟩ := foldlM_entries_section _ hstart.1 hstart.2.1 hruntimes
  rw [List.foldlM_cons] at htools
  obtain ⟨opened, hopened, hentries⟩ := Option.bind_eq_some_iff.mp htools
  have hnone : Dict.find? (lit "required_tools") middle.data = none := by
    rw [hkeep _ hdistinct]
    exact hstart.2.2
  obtain ⟨hheader, htable, hopens⟩ := apply_opens_section hnone hopened
  obtain ⟨second, hsecond, hother', hkeep'⟩ := foldlM_entries_section _ hheader htable hentries
  obtain ⟨item, hitem, hdot⟩ := hdotted
  rcases List.mem_append.mp hitem with hitem | hitem
  · refine ⟨_, first, Or.inl rfl, ?_, hother (Or.inr (hlong runtimes ⟨item, hitem, hdot⟩))⟩
    rw [hkeep' _ hdistinct.symm, hopens _ hdistinct.symm]
    exact hfirst
  · exact ⟨_, second, Or.inr rfl, hsecond, hother' (Or.inr (hlong tools ⟨item, hitem, hdot⟩))⟩

/-- The two tables of a policy are read from tables of strings. -/
theorem policyFromToml_strings {data : Document} {policy : Policy}
    (h : policyFromToml rt data = .ok policy) {key : Str}
    (hkey : key = lit "required_runtimes" ∨ key = lit "required_tools") :
    ∃ d, strDict data key = .ok d := by
  unfold policyFromToml at h
  obtain ⟨supportedRaw, -, h⟩ := bind_eq_ok.mp h
  obtain ⟨knownBadRaw, -, h⟩ := bind_eq_ok.mp h
  obtain ⟨knownBad, -, h⟩ := bind_eq_ok.mp h
  obtain ⟨containersRaw, -, h⟩ := bind_eq_ok.mp h
  obtain ⟨names, -, h⟩ := bind_eq_ok.mp h
  obtain ⟨runtimes, hruntimes, h⟩ := bind_eq_ok.mp h
  obtain ⟨tools, htools, -⟩ := bind_eq_ok.mp h
  rcases hkey with rfl | rfl
  · exact ⟨runtimes, hruntimes⟩
  · exact ⟨tools, htools⟩

/-- What becomes of a requirement can be told from its own texts. -/
def Decided (item : Str × Str) : Prop := WritableItem item ∨ DottedItem item ∨ UnwritableItem item

theorem Decided.return_free {item : Str × Str} (h : Decided item) :
    codePoint '\r' ∉ item.1 ∧ codePoint '\r' ∉ item.2 := by
  rcases h with hwritable | hdotted | hunwritable
  · exact hwritable.return_free
  · exact hdotted.return_free
  · exact hunwritable.return_free

/-- A draft with a requirement that cannot be written is no TOML. -/
theorem loadsToml_unwritable {requirements : Dict Str Str}
    (h : ∀ item ∈ requirements.items, Decided item)
    (hunwritable : ∃ item ∈ requirements.items, UnwritableItem item) :
    loadsToml otherValue (generateDevreproToml requirements [] false) = none := by
  rw [generateDevreproToml_eq]
  refine loadsToml_refused (fun line hline => ?_) ?_
    (readLines_no_return fun item hitem => (h item (mem_parts.mp hitem)).return_free)
  · rcases readLines_cases otherValue hline with ⟨hread, -⟩ | ⟨item, hitem, rfl⟩
    · exact Or.inl hread
    · rcases h item (mem_parts.mp hitem) with hwritable | hdotted | hunwritable
      · exact Or.inl hwritable.readsAs
      · exact Or.inl hdotted.readsAs
      · exact Or.inr hunwritable.refuses
  · obtain ⟨item, hitem, hrefuses⟩ := hunwritable
    exact ⟨_, mem_readLines (mem_parts.mpr hitem), hrefuses.refuses⟩

/-- A draft with a dotted name is no policy. -/
theorem not_roundTrips_of_dotted {requirements : Dict Str Str}
    (h : ∀ item ∈ requirements.items, WritableItem item ∨ DottedItem item)
    (hdotted : ∃ item ∈ requirements.items, DottedItem item) :
    ¬RoundTrips rt otherValue requirements := by
  rintro ⟨data, policy, hloads, hpolicy, -⟩
  have hread : ∀ line ∈ readLines (sortedPart requirements true) (sortedPart requirements false),
      ReadsAs otherValue line.1 line.2 := by
    intro line hline
    rcases readLines_cases otherValue hline with ⟨hread, -⟩ | ⟨item, hitem, rfl⟩
    · exact hread
    · exact (h item (mem_parts.mp hitem)).elim WritableItem.readsAs DottedItem.readsAs
  have hreturn := readLines_no_return fun item hitem =>
    (h item (mem_parts.mp hitem)).elim WritableItem.return_free DottedItem.return_free
  rw [generateDevreproToml_eq, loadsToml_unlines hread hreturn] at hloads
  obtain ⟨item, hitem, hdot⟩ := hdotted
  obtain ⟨key, nest, hkey, hfind, hother⟩ :=
    holdsOther_of_dotted hloads ⟨item, mem_parts.mpr hitem, hdot⟩
  obtain ⟨d, hd⟩ := policyFromToml_strings rt hpolicy hkey
  exact strDict_refuses hfind hother hd

/-- Requirements that can be written come back, and of those whose fate their own texts decide
no others do. -/
theorem roundTrips_exact (requirements : Dict Str Str) :
    (Writable requirements → RoundTrips rt otherValue requirements) ∧
      ((∀ item ∈ requirements.items, Decided item) →
        (RoundTrips rt otherValue requirements ↔ Writable requirements)) := by
  refine ⟨roundTrips_of_writable rt, fun h => ⟨fun hround => ?_, roundTrips_of_writable rt⟩⟩
  have hread : ∀ item ∈ requirements.items, ¬UnwritableItem item := by
    intro item hitem hunwritable
    obtain ⟨data, policy, hloads, -, -⟩ := hround
    rw [loadsToml_unwritable h ⟨item, hitem, hunwritable⟩] at hloads
    cases hloads
  have hkeys : ∀ item ∈ requirements.items, WritableItem item ∨ DottedItem item := by
    intro item hitem
    exact (h item hitem).imp_right fun h => h.resolve_right (hread item hitem)
  intro item hitem
  refine (hkeys item hitem).resolve_right fun hdotted => ?_
  exact not_roundTrips_of_dotted rt hkeys ⟨item, hitem, hdotted⟩ hround

/-! ## Two projects -/

/-- A range for Python. -/
def pythonOnly : Dict Str Str := ⟨[("python", ">=3.11")], List.nodup_singleton _⟩

theorem pythonOnly_roundTrips : RoundTrips .standard (fun _ => none) pythonOnly := by
  refine (roundTrips_exact .standard pythonOnly).1 fun item hitem => ?_
  rw [List.mem_singleton.mp hitem]
  have hplain : ((lit ">=3.11").all fun c =>
      c != codePoint '"' && c != codePoint '\\' && !isIllegal c) = true := by decide
  refine ⟨bareKey_of_all (by decide) (by decide), fun c hc => ?_⟩
  have h := List.all_eq_true.mp hplain c hc
  simpa [and_assoc] using h

/-- A package with a scope, as `package.json` has it. -/
def scopedPackage : Dict Str Str := ⟨[("@types/node", "^20")], List.nodup_singleton _⟩

theorem scopedPackage_lost : ¬RoundTrips .standard (fun _ => none) scopedPackage := by
  have hscope : UnwritableItem (lit "@types/node", lit "^20") :=
    ⟨by decide, Or.inl ⟨[], codePoint '@', lit "types/node", rfl,
      fun _ hc => absurd hc List.not_mem_nil, by decide⟩⟩
  rintro ⟨data, policy, hloads, -, -⟩
  rw [loadsToml_unwritable] at hloads
  · cases hloads
  · intro item hitem
    rw [List.mem_singleton.mp hitem]
    exact Or.inr (Or.inr hscope)
  · exact ⟨_, List.mem_singleton.mpr rfl, hscope⟩

end DevRepro.Generators
