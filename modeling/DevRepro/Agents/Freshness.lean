import DevRepro.Agents.Gates
import DevRepro.Lib.Dict
import DevRepro.Python.JsonDump

/-!
# Manifests among each other

`compare_manifests` of `agents/freshness.py`, which compares commands by a key of its own:
the first two words that are no options.  `oneIdentity_iff` says when that comes to the same
as the identity of `manifest.py`.
-/

namespace DevRepro.Agents

open DevRepro.Python DevRepro.Lib

structure AgentManifest where
  path : Str
  commands : List DeclaredCommand

structure ManifestDisagreement where
  command : Str
  presentIn : List Str
  absentFrom : List Str
  deriving DecidableEq

/-- `_command_key` of `freshness.py`. -/
def spelledKey (command : Str) : Str :=
  match (words command).filter fun t => !startsWith t "-" with
  | [] => []
  | [token] => token
  | token :: argument :: _ => token ++ lit " " ++ argument

/-- The keys that a manifest declares. -/
def spelledKeys (m : AgentManifest) : List Str :=
  (m.commands.map fun c => spelledKey c.raw).filter fun key => key != []

/-- `by_manifest`. -/
def byManifest (manifests : List AgentManifest) : Dict Str (List Str) :=
  manifests.foldl (fun d m => d.set m.path (spelledKeys m)) Dict.empty

/-- The disagreement about one command, if there is one. -/
def disagreement (table : Dict Str (List Str)) (command : Str) : Option ManifestDisagreement :=
  let paths := fun p : List Str → Bool =>
    ((table.items.filter fun item => p item.2).map Prod.fst).mergeSort strLe
  let present := paths fun keys => decide (command ∈ keys)
  let absent := paths fun keys => decide (command ∉ keys)
  if present ≠ [] ∧ absent ≠ [] then some ⟨command, present, absent⟩ else none

/-- `compare_manifests`. -/
def compareManifests (manifests : List AgentManifest) : List ManifestDisagreement :=
  if manifests.length < 2 then []
  else
    let table := byManifest manifests
    ((table.items.flatMap Prod.snd).dedup.mergeSort strLe).filterMap (disagreement table)

/-! ## Two manifests -/

section Definitions

variable (rt : AgentRuntime) (first second : AgentManifest)

/-- A manifest declares a command of an identity. -/
def DeclaresKey (m : AgentManifest) (key : Str) : Prop :=
  ∃ c ∈ m.commands, commandKey rt c.raw = key

/-- A manifest declares a command with these words. -/
def Spells (m : AgentManifest) (key : Str) : Prop := ∃ c ∈ m.commands, spelledKey c.raw = key

/-- The manifests disagree exactly about the commands whose identity only one of them
declares. -/
def OneIdentity : Prop :=
  ∀ c ∈ first.commands ++ second.commands,
    (∃ d ∈ compareManifests [first, second], d.command = spelledKey c.raw) ↔
      commandKey rt c.raw ≠ [] ∧
        (DeclaresKey rt first (commandKey rt c.raw) ∧ ¬DeclaresKey rt second (commandKey rt c.raw) ∨
          ¬DeclaresKey rt first (commandKey rt c.raw) ∧ DeclaresKey rt second (commandKey rt c.raw))

/-- What another manifest does with the commands of one, when it spells them alike: it has
the words of those without an identity, and of the others exactly where it has the
identity. -/
structure SpelledAlike (m other : AgentManifest) : Prop where
  ignored : ∀ c ∈ m.commands, spelledKey c.raw ≠ [] → commandKey rt c.raw = [] →
    Spells other (spelledKey c.raw)
  identity : ∀ c ∈ m.commands, commandKey rt c.raw ≠ [] →
    (Spells other (spelledKey c.raw) ↔ DeclaresKey rt other (commandKey rt c.raw))

end Definitions

variable {rt : AgentRuntime} {first second : AgentManifest}

theorem mem_spelledKeys {m : AgentManifest} {key : Str} :
    key ∈ spelledKeys m ↔ key ≠ [] ∧ Spells m key := by
  rw [spelledKeys, List.mem_filter, List.mem_map, bne_iff_ne, and_comm]
  rfl

theorem byManifest_items (h : first.path ≠ second.path) :
    (byManifest [first, second]).items =
      [(first.path, spelledKeys first), (second.path, spelledKeys second)] := by
  simp [byManifest, Dict.set, Dict.empty, Dict.put, h]

theorem disagreement_command {table : Dict Str (List Str)} {command : Str}
    {d : ManifestDisagreement} (h : disagreement table command = some d) : d.command = command := by
  rw [disagreement] at h
  dsimp only at h
  split_ifs at h
  cases h
  rfl

/-- A sorted selection of the paths is empty when nothing is selected. -/
theorem paths_ne_nil {items : List (Str × List Str)} {p : List Str → Bool} :
    ((items.filter fun item => p item.2).map Prod.fst).mergeSort strLe ≠ [] ↔
      ∃ item ∈ items, p item.2 = true := by
  rw [← List.length_pos_iff, List.length_mergeSort, List.length_map, List.length_pos_iff, ne_eq,
    List.filter_eq_nil_iff]
  simp only [not_forall, not_not, exists_prop]

theorem disagreement_isSome {table : Dict Str (List Str)} {command : Str} :
    (∃ d, disagreement table command = some d) ↔
      (∃ item ∈ table.items, command ∈ item.2) ∧ ∃ item ∈ table.items, command ∉ item.2 := by
  have hin := @paths_ne_nil table.items fun keys => decide (command ∈ keys)
  have hout := @paths_ne_nil table.items fun keys => decide (command ∉ keys)
  simp only [decide_eq_true_eq] at hin hout
  rw [← hin, ← hout, disagreement]
  dsimp only
  split_ifs with h
  · exact iff_of_true ⟨_, rfl⟩ h
  · refine iff_of_false ?_ h
    rintro ⟨d, hd⟩
    cases hd

/-- Two manifests disagree about the words that only one of them has. -/
theorem mem_compareManifests (h : first.path ≠ second.path) {key : Str} :
    (∃ d ∈ compareManifests [first, second], d.command = key) ↔
      key ≠ [] ∧ (Spells first key ∧ ¬Spells second key ∨ ¬Spells first key ∧ Spells second key) := by
  have htwo : ¬[first, second].length < 2 := by simp
  rw [compareManifests, if_neg htwo]
  have hmem : (∃ d ∈ (((byManifest [first, second]).items.flatMap Prod.snd).dedup.mergeSort
        strLe).filterMap (disagreement (byManifest [first, second])), d.command = key) ↔
      ∃ d, disagreement (byManifest [first, second]) key = some d := by
    constructor
    · rintro ⟨d, hd, rfl⟩
      obtain ⟨command, -, hsome⟩ := List.mem_filterMap.mp hd
      rw [disagreement_command hsome]
      exact ⟨d, hsome⟩
    · rintro ⟨d, hsome⟩
      obtain ⟨⟨item, hitem, hkey⟩, -⟩ := disagreement_isSome.mp ⟨d, hsome⟩
      refine ⟨d, List.mem_filterMap.mpr ⟨key, ?_, hsome⟩, disagreement_command hsome⟩
      rw [List.mem_mergeSort, List.mem_dedup, List.mem_flatMap]
      exact ⟨item, hitem, hkey⟩
  rw [hmem, disagreement_isSome, byManifest_items h]
  simp only [List.mem_cons, List.not_mem_nil, or_false, exists_eq_or_imp, exists_eq_left,
    mem_spelledKeys]
  tauto

/-- A command of options only has no identity. -/
theorem commandKey_of_spelledKey {c : Str} (h : spelledKey c = []) : commandKey rt c = [] := by
  have hoptions : (words c).filter (fun t => !startsWith t "-") = [] := by
    unfold spelledKey at h
    split at h
    · assumption
    · rename_i token hone
      have hmem : token ∈ words c := (List.mem_filter.mp (hone ▸ List.mem_singleton_self token)).1
      exact absurd h (mem_words hmem).1
    · rename_i token argument others htwo
      have hmem : token ∈ words c :=
        (List.mem_filter.mp (htwo ▸ List.mem_cons_self (a := token))).1
      rw [List.append_eq_nil_iff, List.append_eq_nil_iff] at h
      exact absurd h.1.1 (mem_words hmem).1
  have hkeys : (keyWords c).filter (fun t => !startsWith t "-") = [] := by
    rw [List.filter_eq_nil_iff] at hoptions ⊢
    intro t ht
    rw [keyWords_eq] at ht
    exact hoptions t (mem_moduleWords ht)
  rw [commandKey, hkeys]

/-- What the manifests say about a command of one of them. -/
theorem disagrees_iff {other : AgentManifest} {c : DeclaredCommand} :
    ((spelledKey c.raw ≠ [] ∧ ¬Spells other (spelledKey c.raw)) ↔
        commandKey rt c.raw ≠ [] ∧ ¬DeclaresKey rt other (commandKey rt c.raw)) ↔
      (spelledKey c.raw ≠ [] → commandKey rt c.raw = [] → Spells other (spelledKey c.raw)) ∧
        (commandKey rt c.raw ≠ [] →
          (Spells other (spelledKey c.raw) ↔ DeclaresKey rt other (commandKey rt c.raw))) := by
  have hnone := @commandKey_of_spelledKey rt c.raw
  tauto

variable (rt) in
/-- There is one identity for two manifests exactly when they spell alike what is the
same. -/
theorem oneIdentity_iff (h : first.path ≠ second.path) :
    OneIdentity rt first second ↔ SpelledAlike rt first second ∧ SpelledAlike rt second first := by
  have hfirst : ∀ c ∈ first.commands, Spells first (spelledKey c.raw) ∧
      DeclaresKey rt first (commandKey rt c.raw) := fun c hc => ⟨⟨c, hc, rfl⟩, ⟨c, hc, rfl⟩⟩
  have hsecond : ∀ c ∈ second.commands, Spells second (spelledKey c.raw) ∧
      DeclaresKey rt second (commandKey rt c.raw) := fun c hc => ⟨⟨c, hc, rfl⟩, ⟨c, hc, rfl⟩⟩
  have hone : OneIdentity rt first second ↔
      (∀ c ∈ first.commands, ((spelledKey c.raw ≠ [] ∧ ¬Spells second (spelledKey c.raw)) ↔
        commandKey rt c.raw ≠ [] ∧ ¬DeclaresKey rt second (commandKey rt c.raw))) ∧
      ∀ c ∈ second.commands, ((spelledKey c.raw ≠ [] ∧ ¬Spells first (spelledKey c.raw)) ↔
        commandKey rt c.raw ≠ [] ∧ ¬DeclaresKey rt first (commandKey rt c.raw)) := by
    unfold OneIdentity
    simp only [mem_compareManifests h]
    rw [List.forall_mem_append]
    refine and_congr (forall₂_congr fun c hc => ?_) (forall₂_congr fun c hc => ?_)
    · have := hfirst c hc
      tauto
    · have := hsecond c hc
      tauto
  rw [hone]
  constructor
  · rintro ⟨hf, hs⟩
    exact ⟨⟨fun c hc => (disagrees_iff.mp (hf c hc)).1, fun c hc => (disagrees_iff.mp (hf c hc)).2⟩,
      ⟨fun c hc => (disagrees_iff.mp (hs c hc)).1, fun c hc => (disagrees_iff.mp (hs c hc)).2⟩⟩
  · rintro ⟨hf, hs⟩
    exact ⟨fun c hc => disagrees_iff.mpr ⟨hf.ignored c hc, hf.identity c hc⟩,
      fun c hc => disagrees_iff.mpr ⟨hs.ignored c hc, hs.identity c hc⟩⟩

/-- A manifest with one command. -/
def oneCommand (path raw : Str) : AgentManifest :=
  ⟨path, [⟨raw, programOf .standard raw, path, 1, "."⟩]⟩

theorem oneIdentity_pytest :
    OneIdentity .standard (oneCommand "AGENTS.md" "pytest -q") (oneCommand "CLAUDE.md" "pytest") := by
  have hkeys : commandKey .standard "pytest -q" = lit "pytest" ∧
      commandKey .standard "pytest" = lit "pytest" ∧ spelledKey "pytest -q" = lit "pytest" ∧
      spelledKey "pytest" = lit "pytest" := by decide +kernel
  obtain ⟨hkey, hother, hspelled, hspelledOther⟩ := hkeys
  refine (oneIdentity_iff .standard (by decide)).mpr ⟨⟨fun c hc _ hnone => ?_, fun c hc _ => ?_⟩,
    ⟨fun c hc _ hnone => ?_, fun c hc _ => ?_⟩⟩
  · rw [List.mem_singleton.mp hc]
    exact ⟨_, List.mem_singleton_self _, hspelledOther.trans hspelled.symm⟩
  · rw [List.mem_singleton.mp hc]
    exact iff_of_true ⟨_, List.mem_singleton_self _, hspelledOther.trans hspelled.symm⟩
      ⟨_, List.mem_singleton_self _, hother.trans hkey.symm⟩
  · rw [List.mem_singleton.mp hc]
    exact ⟨_, List.mem_singleton_self _, hspelled.trans hspelledOther.symm⟩
  · rw [List.mem_singleton.mp hc]
    exact iff_of_true ⟨_, List.mem_singleton_self _, hspelled.trans hspelledOther.symm⟩
      ⟨_, List.mem_singleton_self _, hkey.trans hother.symm⟩

/-- `python -m pytest` and `pytest` are one command, and the manifests disagree about it. -/
theorem module_form_disagrees :
    ¬OneIdentity .standard (oneCommand "AGENTS.md" "python -m pytest")
      (oneCommand "CLAUDE.md" "pytest") := by
  have hkeys : commandKey .standard "python -m pytest" = lit "pytest" ∧
      commandKey .standard "pytest" = lit "pytest" ∧
      spelledKey "pytest" ≠ spelledKey "python -m pytest" ∧ spelledKey "python -m pytest" ≠ [] := by
    decide +kernel
  obtain ⟨hkey, hother, hspelled, hne⟩ := hkeys
  intro h
  have hfirst : DeclaresKey .standard (oneCommand "AGENTS.md" "python -m pytest") "pytest" :=
    ⟨_, List.mem_singleton_self _, hkey⟩
  have hsecond : DeclaresKey .standard (oneCommand "CLAUDE.md" "pytest") "pytest" :=
    ⟨_, List.mem_singleton_self _, hother⟩
  have honly : ¬Spells (oneCommand "CLAUDE.md" "pytest") (spelledKey "python -m pytest") := by
    rintro ⟨c, hc, heq⟩
    rw [List.mem_singleton.mp hc] at heq
    exact hspelled heq
  have hreported := (@mem_compareManifests (oneCommand "AGENTS.md" "python -m pytest")
    (oneCommand "CLAUDE.md" "pytest") (by decide) _).mpr
    ⟨hne, Or.inl ⟨⟨_, List.mem_singleton_self _, rfl⟩, honly⟩⟩
  obtain ⟨-, hxor⟩ := (h _ List.mem_cons_self).mp hreported
  rw [show commandKey .standard _ = lit "pytest" from hkey] at hxor
  rcases hxor with ⟨-, hnot⟩ | ⟨hnot, -⟩
  · exact hnot hsecond
  · exact hnot hfirst

end DevRepro.Agents
