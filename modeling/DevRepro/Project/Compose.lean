import DevRepro.Diff.Engine
import DevRepro.Project.Extends

/-!
# Composed policies

`load_composed_policy`, `_merge` and `_merge_env_names` of `project/compose.py`.

`definers` lists the layers that define a key of a table, nearest first.
`merge_attributes` says that the merged value, its owner and what it overrides
are the head and the tail of that list, and `Records` is the invariant of the
three maps that `_merge` keeps.
-/

namespace DevRepro.Project

open DevRepro.Python DevRepro.Lib DevRepro.Diff

/-! ## The merged tables -/

/-- `_MERGED_TABLES`, in its order. -/
inductive MergedTable where
  | requiredRuntimes
  | requiredTools
  | optionalTools
  | knownBadVersions
  deriving DecidableEq

namespace MergedTable

def all : List MergedTable := [requiredRuntimes, requiredTools, optionalTools, knownBadVersions]

/-- The name of the field of `Policy`. -/
def name : MergedTable → Str
  | requiredRuntimes => "required_runtimes"
  | requiredTools => "required_tools"
  | optionalTools => "optional_tools"
  | knownBadVersions => "known_bad_versions"

end MergedTable

/-- A value of a merged table: a range, or the versions that are known bad. -/
inductive PolicyValue where
  | text (s : Str)
  | versions (vs : List Str)
  deriving DecidableEq

variable (rt : PolicyRuntime)

/-- `str()` of a tuple of strings. -/
def tupleStr : List Str → Str
  | [v] => lit "(" ++ rt.strRepr v ++ lit ",)"
  | vs => lit "(" ++ join ", " (vs.map rt.strRepr) ++ lit ")"

/-- `str(value)`. -/
def PolicyValue.toStr : PolicyValue → Str
  | text s => s
  | versions vs => tupleStr rt vs

/-- `tuple(v) if isinstance(v, (list, tuple)) else (str(v),)`. -/
def PolicyValue.toVersions : PolicyValue → List Str
  | text s => [s]
  | versions vs => vs

/-- `getattr(policy, table_name)`. -/
def Policy.table (policy : Policy) : MergedTable → Dict Str PolicyValue
  | .requiredRuntimes => policy.requiredRuntimes.mapValues .text
  | .requiredTools => policy.requiredTools.mapValues .text
  | .optionalTools => policy.optionalTools.mapValues .text
  | .knownBadVersions => policy.knownBadVersions.mapValues .versions

/-- `Policy()`. -/
def Policy.default : Policy where
  supportedOs := .default
  requiredRuntimes := .empty
  requiredTools := .empty
  optionalTools := .empty
  knownBadVersions := .empty
  containers := .default
  requiredEnvNames := []

/-! ## The merge -/

structure Provenance where
  key : Str
  value : Str
  layer : Str
  overrides : List Str
  deriving DecidableEq

/-- A parsed layer, under its label. -/
abbrev Layer := Str × Policy

/-- The three maps of `_merge`. -/
structure MergeState where
  tables : MergedTable → Dict Str PolicyValue
  owner : Dict (MergedTable × Str) Str
  overridden : Dict (MergedTable × Str) (List Str)

def MergeState.empty : MergeState := ⟨fun _ => .empty, .empty, .empty⟩

/-- One entry of a table of a layer. -/
def mergeEntry (label : Str) (table : MergedTable) (st : MergeState) (item : Str × PolicyValue) :
    MergeState :=
  if st.owner.contains (table, item.1) then
    { st with
      overridden := st.overridden.set (table, item.1)
        ((st.overridden.get? (table, item.1)).getD [] ++ [label]) }
  else
    { st with
      owner := st.owner.set (table, item.1) label
      tables := Function.update st.tables table ((st.tables table).set item.1 item.2) }

/-- The tables of one layer. -/
def mergeLayer (st : MergeState) (layer : Layer) : MergeState :=
  MergedTable.all.foldl
    (fun st table => (layer.2.table table).items.foldl (mergeEntry layer.1 table) st) st

/-- `d[key]`. -/
def subscript {α : Type} (d : Dict Str α) (key : Str) : Except Failure α :=
  match d.get? key with
  | some v => .ok v
  | none => .error (.raised ⟨.keyError, rt.strRepr key⟩)

/-- `f"{table_name}.{key}"`. -/
def provenanceKey (identity : MergedTable × Str) : Str := identity.1.name ++ lit "." ++ identity.2

/-- The provenance of one owned key. -/
def provenanceOf (st : MergeState) (item : (MergedTable × Str) × Str) :
    Except Failure Provenance := do
  let value ← subscript rt (st.tables item.1.1) item.1.2
  return {
    key := provenanceKey item.1
    value := value.toStr rt
    layer := item.2
    overrides := (st.overridden.get? item.1).getD [] }

/-- `sorted(owner)`, with the owners. -/
def sortedOwner (owner : Dict (MergedTable × Str) Str) : List ((MergedTable × Str) × Str) :=
  owner.items.mergeSort fun a b => pairLe (a.1.1.name, a.1.2) (b.1.1.name, b.1.2)

/-- One name of `_merge_env_names`. -/
def mergeName (names : List Str) (name : Str) : List Str :=
  if name ∈ names then names else names ++ [name]

/-- `_merge_env_names`. -/
def mergeEnvNames (parsed : List Layer) : List Str :=
  parsed.foldl (fun names layer => layer.2.requiredEnvNames.foldl mergeName names) []

/-- The policy that `_merge` builds of its maps. -/
def mergedPolicy (nearest : Policy) (st : MergeState) (parsed : List Layer) : Policy where
  supportedOs := nearest.supportedOs
  requiredRuntimes := (st.tables .requiredRuntimes).mapValues (PolicyValue.toStr rt)
  requiredTools := (st.tables .requiredTools).mapValues (PolicyValue.toStr rt)
  optionalTools := (st.tables .optionalTools).mapValues (PolicyValue.toStr rt)
  knownBadVersions := (st.tables .knownBadVersions).mapValues PolicyValue.toVersions
  containers := nearest.containers
  requiredEnvNames := mergeEnvNames parsed

/-- `_merge`. -/
def merge (parsed : List Layer) : Except Failure (Policy × List Provenance) :=
  match parsed with
  | [] => .ok (.default, [])
  | (_, nearest) :: _ => do
    let st := parsed.foldl mergeLayer .empty
    let provenance ← (sortedOwner st.owner).mapM (provenanceOf rt st)
    return (mergedPolicy rt nearest st parsed, provenance)

/-! ## What the maps record -/

/-- The layers that define a key of a table, nearest first, with their values. -/
def definers (parsed : List Layer) (table : MergedTable) (key : Str) :
    List (Str × PolicyValue) :=
  parsed.filterMap fun layer => ((layer.2.table table).get? key).map (layer.1, ·)

/-- The maps hold, for each key, the head and the tail of a list of definers. -/
structure Records (st : MergeState) (trail : MergedTable → Str → List (Str × PolicyValue)) :
    Prop where
  owner : ∀ t k, st.owner.get? (t, k) = (trail t k).head?.map Prod.fst
  value : ∀ t k, (st.tables t).get? k = (trail t k).head?.map Prod.snd
  overridden : ∀ t k, (st.overridden.get? (t, k)).getD [] = (trail t k).tail.map Prod.fst

variable {rt}

theorem Records.congr {st : MergeState} {trail trail' : MergedTable → Str → List (Str × PolicyValue)}
    (h : Records st trail) (heq : ∀ t k, trail t k = trail' t k) : Records st trail' := by
  obtain rfl : trail = trail' := funext fun t => funext (heq t)
  exact h

/-- One entry is one more definer of its key. -/
theorem mergeEntry_records {st : MergeState} {trail : MergedTable → Str → List (Str × PolicyValue)}
    (h : Records st trail) (label : Str) (table : MergedTable) (item : Str × PolicyValue) :
    Records (mergeEntry label table st item) fun t k =>
      trail t k ++ if t = table ∧ k = item.1 then [(label, item.2)] else [] := by
  obtain ⟨key, value⟩ := item
  have howner := h.owner table key
  unfold mergeEntry Dict.contains
  rw [howner]
  cases htrail : trail table key with
  | nil =>
    -- the first definer becomes the owner
    rw [List.head?_nil, Option.map_none, if_neg (by simp)]
    constructor
    · intro t k
      dsimp only
      rw [Dict.get?_set]
      by_cases hk : t = table ∧ k = key
      · obtain ⟨rfl, rfl⟩ := hk
        simp [htrail]
      · rw [if_neg hk, if_neg (by simpa [Prod.ext_iff] using hk), List.append_nil]
        exact h.owner t k
    · intro t k
      dsimp only
      by_cases ht : t = table
      · subst ht
        rw [Function.update_self, Dict.get?_set]
        by_cases hk : k = key
        · subst hk
          simp [htrail]
        · rw [if_neg hk, if_neg (fun hboth => hk hboth.2), List.append_nil]
          exact h.value t k
      · rw [Function.update_of_ne ht, if_neg (fun hboth => ht hboth.1), List.append_nil]
        exact h.value t k
    · intro t k
      dsimp only
      rw [h.overridden t k]
      split_ifs with hk
      · obtain ⟨rfl, rfl⟩ := hk
        simp [htrail]
      · rw [List.append_nil]
  | cons first rest =>
    -- a later definer is overridden
    rw [List.head?_cons, Option.map_some, Option.isSome_some, if_pos rfl]
    have hhead : ∀ t k, (trail t k ++ if t = table ∧ k = key then [(label, value)] else []).head? =
        (trail t k).head? := by
      intro t k
      split_ifs with hk
      · obtain ⟨rfl, rfl⟩ := hk
        rw [htrail]
        rfl
      · rw [List.append_nil]
    refine ⟨fun t k => (h.owner t k).trans ?_, fun t k => (h.value t k).trans ?_, fun t k => ?_⟩
    · rw [hhead]
    · rw [hhead]
    · dsimp only
      rw [Dict.get?_set]
      by_cases hk : t = table ∧ k = key
      · obtain ⟨rfl, rfl⟩ := hk
        rw [if_pos rfl, if_pos ⟨rfl, rfl⟩, h.overridden, htrail]
        simp
      · rw [if_neg hk, if_neg (by simpa [Prod.ext_iff] using hk), List.append_nil]
        exact h.overridden t k

theorem mergeItems_records {st : MergeState} {trail : MergedTable → Str → List (Str × PolicyValue)}
    (h : Records st trail) (label : Str) (table : MergedTable) (items : List (Str × PolicyValue)) :
    Records (items.foldl (mergeEntry label table) st) fun t k =>
      trail t k ++ if t = table then
        items.filterMap fun item => if item.1 = k then some (label, item.2) else none
      else [] := by
  induction items generalizing st trail with
  | nil => simpa using h
  | cons item rest ih =>
    rw [List.foldl_cons]
    refine (ih (mergeEntry_records h label table item)).congr fun t k => ?_
    rw [List.append_assoc]
    congr 1
    by_cases ht : t = table
    · by_cases hk : k = item.1
      · simp [ht, hk]
      · simp [ht, hk, Ne.symm hk]
    · simp [ht]

theorem mergeTables_records {st : MergeState}
    {trail : MergedTable → Str → List (Str × PolicyValue)} (h : Records st trail) (layer : Layer)
    (tables : List MergedTable) :
    Records (tables.foldl
        (fun st table => (layer.2.table table).items.foldl (mergeEntry layer.1 table) st) st)
      fun t k => trail t k ++ tables.flatMap fun table => if t = table then
        (((layer.2.table t).get? k).map (layer.1, ·)).toList else [] := by
  induction tables generalizing st trail with
  | nil => simpa using h
  | cons table rest ih =>
    rw [List.foldl_cons]
    refine (ih (mergeItems_records h layer.1 table (layer.2.table table).items)).congr
      fun t k => ?_
    rw [List.append_assoc, List.flatMap_cons]
    congr 2
    by_cases ht : t = table
    · subst ht
      rw [if_pos rfl, if_pos rfl]
      exact Dict.filterMap_items _ k (layer.1, ·)
    · rw [if_neg ht, if_neg ht]

theorem mergeLayer_records {st : MergeState}
    {trail : MergedTable → Str → List (Str × PolicyValue)} (h : Records st trail) (layer : Layer) :
    Records (mergeLayer st layer) fun t k =>
      trail t k ++ (((layer.2.table t).get? k).map (layer.1, ·)).toList := by
  refine (mergeTables_records h layer MergedTable.all).congr fun t k => ?_
  cases t <;> simp [MergedTable.all]

/-- After the layers, each key has its definers among them. -/
theorem mergeLayers_records {st : MergeState}
    {trail : MergedTable → Str → List (Str × PolicyValue)} (h : Records st trail)
    (parsed : List Layer) :
    Records (parsed.foldl mergeLayer st) fun t k => trail t k ++ definers parsed t k := by
  induction parsed generalizing st trail with
  | nil => simpa [definers] using h
  | cons layer rest ih =>
    rw [List.foldl_cons]
    refine (ih (mergeLayer_records h layer)).congr fun t k => ?_
    rw [List.append_assoc]
    unfold definers
    rw [List.filterMap_cons]
    congr 1
    cases ((layer.2.table t).get? k).map (layer.1, ·) with
    | none => rfl
    | some entry => rfl

theorem merge_records (parsed : List Layer) :
    Records (parsed.foldl mergeLayer .empty) (definers parsed) := by
  have hempty : Records .empty fun _ _ => [] := ⟨fun _ _ => rfl, fun _ _ => rfl, fun _ _ => rfl⟩
  simpa using mergeLayers_records hempty parsed

/-! ## Values -/

variable (rt) in
/-- What a merged table holds for a value: its text, or its versions. -/
def MergedTable.hold (t : MergedTable) (v : PolicyValue) : PolicyValue :=
  match t with
  | .knownBadVersions => .versions v.toVersions
  | _ => .text (v.toStr rt)

/-- A value of a layer's table is held as it is. -/
theorem hold_of_get? {policy : Policy} {t : MergedTable} {k : Str} {v : PolicyValue}
    (h : (policy.table t).get? k = some v) : t.hold rt v = v := by
  cases t <;>
  · rw [Policy.table, Dict.get?_mapValues, Option.map_eq_some_iff] at h
    obtain ⟨s, -, rfl⟩ := h
    rfl

theorem hold_of_mem_definers {parsed : List Layer} {t : MergedTable} {k : Str}
    {definer : Str × PolicyValue} (h : definer ∈ definers parsed t k) :
    t.hold rt definer.2 = definer.2 := by
  rw [definers, List.mem_filterMap] at h
  obtain ⟨layer, -, hlayer⟩ := h
  rw [Option.map_eq_some_iff] at hlayer
  obtain ⟨v, hv, rfl⟩ := hlayer
  exact hold_of_get? hv

theorem mergedPolicy_table (nearest : Policy) (st : MergeState) (parsed : List Layer)
    (t : MergedTable) (k : Str) : ((mergedPolicy rt nearest st parsed).table t).get? k =
      ((st.tables t).get? k).map (t.hold rt) := by
  cases t <;>
  · rw [Policy.table, Dict.get?_mapValues, mergedPolicy, Dict.get?_mapValues, Option.map_map]
    rfl

/-! ## Provenance -/

variable (rt) in
/-- What the provenance says of a key with these definers. -/
def attribution (identity : MergedTable × Str) : List (Str × PolicyValue) → List Provenance
  | [] => []
  | (label, value) :: later =>
    [⟨provenanceKey identity, value.toStr rt, label, later.map Prod.fst⟩]

theorem provenanceKey_injective : Function.Injective provenanceKey := by
  rintro ⟨t, k⟩ ⟨t', k'⟩ h
  have hdot : ∀ t : MergedTable, codePoint '.' ∉ t.name := by
    intro t
    cases t <;> decide
  have hname : ∀ t k, (provenanceKey (t, k)).takeWhile (fun c => c != codePoint '.') = t.name := by
    intro t k
    have hall : ∀ c ∈ t.name, (c != codePoint '.') = true := by
      intro c hc
      rw [bne_iff_ne]
      rintro rfl
      exact hdot t hc
    rw [provenanceKey, List.append_assoc, List.takeWhile_append_of_pos hall]
    simp [lit]
  have ht : t = t' := by
    have heq := congrArg (List.takeWhile fun c => c != codePoint '.') h
    rw [hname, hname] at heq
    revert heq
    cases t <;> cases t' <;> decide
  subst ht
  rw [provenanceKey, provenanceKey, List.append_cancel_left_eq] at h
  exact Prod.ext rfl h

section

variable {st : MergeState} {trail : MergedTable → Str → List (Str × PolicyValue)}

/-- The entry of an owned key is what its definers give. -/
theorem provenanceOf_eq (h : Records st trail) {item : (MergedTable × Str) × Str}
    (hitem : item ∈ st.owner.items) :
    ∃ entry, provenanceOf rt st item = .ok entry ∧
      attribution rt item.1 (trail item.1.1 item.1.2) = [entry] := by
  have howner := h.owner item.1.1 item.1.2
  have hvalue := h.value item.1.1 item.1.2
  have hoverridden := h.overridden item.1.1 item.1.2
  rw [Dict.get?_of_mem hitem] at howner
  cases htrail : trail item.1.1 item.1.2 with
  | nil =>
    rw [htrail] at howner
    cases howner
  | cons first later =>
    rw [htrail] at howner hvalue hoverridden
    refine ⟨_, ?_, rfl⟩
    rw [provenanceOf, subscript, hvalue, hoverridden]
    rw [List.head?_cons, Option.map_some, Option.some.injEq] at howner
    rw [howner]
    rfl

theorem mapM_provenance (h : Records st trail) {items : List ((MergedTable × Str) × Str)}
    (hitems : ∀ item ∈ items, item ∈ st.owner.items) :
    items.mapM (provenanceOf rt st) = .ok
      (items.flatMap fun item => attribution rt item.1 (trail item.1.1 item.1.2)) := by
  induction items with
  | nil => rfl
  | cons item rest ih =>
    obtain ⟨entry, hentry, hattr⟩ :=
      @provenanceOf_eq rt st trail h item (hitems item List.mem_cons_self)
    rw [List.mapM_cons, hentry, ih fun other hother => hitems other (List.mem_cons_of_mem _ hother),
      List.flatMap_cons, hattr]
    rfl

theorem attribution_key {identity : MergedTable × Str} {definers : List (Str × PolicyValue)}
    {p : Provenance} (hp : p ∈ attribution rt identity definers) :
    p.key = provenanceKey identity := by
  cases definers with
  | nil => cases hp
  | cons first later =>
    rw [List.mem_singleton.mp hp]

/-- The entries under the key of a table are those of the owned key. -/
theorem filter_provenance (identity : MergedTable × Str)
    (items : List ((MergedTable × Str) × Str)) :
    (items.flatMap fun item => attribution rt item.1 (trail item.1.1 item.1.2)).filter
        (fun p => decide (p.key = provenanceKey identity)) =
      (items.filter fun item => decide (item.1 = identity)).flatMap fun item =>
        attribution rt item.1 (trail item.1.1 item.1.2) := by
  induction items with
  | nil => rfl
  | cons item rest ih =>
    rw [List.flatMap_cons, List.filter_append, ih, List.filter_cons]
    by_cases heq : item.1 = identity
    · rw [if_pos (decide_eq_true heq), List.flatMap_cons]
      congr 1
      rw [List.filter_eq_self]
      intro p hp
      rw [attribution_key hp, heq]
      exact decide_eq_true rfl
    · rw [if_neg (by simpa using heq)]
      have hnone : (attribution rt item.1 (trail item.1.1 item.1.2)).filter
          (fun p => decide (p.key = provenanceKey identity)) = [] := by
        rw [List.filter_eq_nil_iff]
        intro p hp hkey
        rw [attribution_key hp, decide_eq_true_eq] at hkey
        exact heq (provenanceKey_injective hkey)
      rw [hnone, List.nil_append]

/-- Sorting keeps the one entry of an owned key. -/
theorem filter_sortedOwner (owner : Dict (MergedTable × Str) Str) (identity : MergedTable × Str) :
    ((sortedOwner owner).filter fun item => decide (item.1 = identity)) =
      ((owner.get? identity).map (identity, ·)).toList := by
  have hperm := (List.mergeSort_perm owner.items
    fun a b => pairLe (a.1.1.name, a.1.2) (b.1.1.name, b.1.2)).filter
    fun item => decide (item.1 = identity)
  rw [Dict.filter_items] at hperm
  cases howner : owner.get? identity with
  | none =>
    rw [howner] at hperm
    exact hperm.eq_nil
  | some label =>
    rw [howner] at hperm
    exact List.perm_singleton.mp hperm

end

/-! ## Names -/

/-- The names of the layers, one layer after the other. -/
def allNames (parsed : List Layer) : List Str := parsed.flatMap fun layer => layer.2.requiredEnvNames

theorem foldl_mergeName (names more : List Str) :
    more.foldl mergeName names = names ++ fresh names more := by
  induction more generalizing names with
  | nil => simp [fresh]
  | cons name rest ih =>
    rw [List.foldl_cons, mergeName, fresh]
    split_ifs
    · exact ih names
    · rw [ih, List.append_assoc, List.singleton_append]

theorem mergeEnvNames_eq (parsed : List Layer) :
    mergeEnvNames parsed = fresh [] (allNames parsed) := by
  rw [mergeEnvNames, ← List.foldl_flatMap, foldl_mergeName, List.nil_append, allNames]

/-! ## The merge as a whole -/

/-- What `_merge` gives for its layers: no key of the provenance is missing in the
tables. -/
theorem merge_eq (layer : Layer) (rest : List Layer) :
    let st := (layer :: rest).foldl mergeLayer .empty
    merge rt (layer :: rest) = .ok (mergedPolicy rt layer.2 st (layer :: rest),
      (sortedOwner st.owner).flatMap fun item =>
        attribution rt item.1 (definers (layer :: rest) item.1.1 item.1.2)) := by
  intro st
  have hprovenance := @mapM_provenance rt _ _ (merge_records (layer :: rest))
    (sortedOwner st.owner) fun item hitem => List.mem_mergeSort.mp hitem
  rw [merge, hprovenance]
  rfl

/-- Each key has the value of the nearest layer that defines it, the provenance
has one entry for it, which names that layer and then every later one that
defines it, and the names are those of all layers, in order and once each. -/
theorem merge_attributes (rt : PolicyRuntime) (parsed : List Layer) (h : parsed ≠ []) :
    ∃ merged provenance, merge rt parsed = .ok (merged, provenance) ∧
      (∀ t k, (merged.table t).get? k = (definers parsed t k).head?.map Prod.snd) ∧
      (∀ t k, provenance.filter (fun p => decide (p.key = provenanceKey (t, k))) =
        attribution rt (t, k) (definers parsed t k)) ∧
      (∀ p ∈ provenance, ∃ t k, p.key = provenanceKey (t, k) ∧ definers parsed t k ≠ []) ∧
      merged.requiredEnvNames.Nodup ∧
      (∀ n, n ∈ merged.requiredEnvNames ↔ ∃ layer ∈ parsed, n ∈ layer.2.requiredEnvNames) ∧
      merged.requiredEnvNames.Pairwise fun a b =>
        (allNames parsed).idxOf a < (allNames parsed).idxOf b := by
  obtain ⟨layer, rest, rfl⟩ := List.exists_cons_of_ne_nil h
  have hrecords := merge_records (layer :: rest)
  refine ⟨_, _, merge_eq layer rest, fun t k => ?_, fun t k => ?_, fun p hp => ?_, ?_⟩
  · -- the value: the table holds what the nearest definer says
    rw [mergedPolicy_table, hrecords.value]
    cases hdef : definers (layer :: rest) t k with
    | nil => rfl
    | cons definer later =>
      have hmem : definer ∈ definers (layer :: rest) t k := hdef ▸ List.mem_cons_self
      rw [List.head?_cons, Option.map_some, Option.map_some, hold_of_mem_definers hmem]
  · rw [filter_provenance, filter_sortedOwner, hrecords.owner]
    cases hdef : definers (layer :: rest) t k with
    | nil => rfl
    | cons definer later =>
      simp [hdef]
  · rw [List.mem_flatMap] at hp
    obtain ⟨item, -, hitem⟩ := hp
    refine ⟨item.1.1, item.1.2, attribution_key hitem, fun hnil => ?_⟩
    rw [hnil] at hitem
    cases hitem
  · rw [mergedPolicy, mergeEnvNames_eq]
    refine ⟨fresh_nodup _ _, fun n => ?_, fresh_ordered _ _⟩
    rw [mem_fresh, allNames, List.mem_flatMap]
    simp

/-- A repository and the organization's road, which both pin node. -/
def sampleLayers : List Layer :=
  [("repo", { Policy.default with
      requiredRuntimes := Dict.empty.set "node" ">=20", requiredEnvNames := ["URL"] }),
    ("org", { Policy.default with
      requiredRuntimes := Dict.empty.set "node" ">=22", requiredEnvNames := ["PROXY", "URL"] })]

theorem merge_attributes_sample : ∃ merged provenance,
    merge .standard sampleLayers = .ok (merged, provenance) ∧
      (merged.table .requiredRuntimes).get? "node" = some (.text ">=20") ∧
      provenance.filter (fun p => decide (p.key = provenanceKey (.requiredRuntimes, "node"))) =
        [⟨"required_runtimes.node", ">=20", "repo", ["org"]⟩] := by
  obtain ⟨merged, provenance, hmerge, hvalue, hentry, -⟩ :=
    merge_attributes .standard sampleLayers (List.cons_ne_nil _ _)
  have hdef : definers sampleLayers .requiredRuntimes "node" =
      [(lit "repo", .text (lit ">=20")), (lit "org", .text (lit ">=22"))] := rfl
  refine ⟨merged, provenance, hmerge, ?_, ?_⟩
  · rw [hvalue, hdef]
    rfl
  · rw [hentry, hdef]
    rfl

end DevRepro.Project
