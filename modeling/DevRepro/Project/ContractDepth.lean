import DevRepro.Lib.Firsts
import DevRepro.Project.Contract

/-!
# Contract files and their directories

`classify_contract_path` on a file name and on the same name in a directory.

A pattern of the table asks the name alone, unless it is one of the two for
workflows or its star takes a slash behind the `**/` (`classifies_below_iff`).  The
table stands in the order of its kinds, so a directory changes the kind of a file
when such a pattern comes before all that take the name (`depth_ignored_iff`).
-/

namespace DevRepro.Project

open DevRepro.Python DevRepro.Lib

/-! ## The order of the table -/

/-- The place of a kind in the table. -/
def ContractKind.rank : ContractKind → Nat
  | .policy => 0
  | .lockfile => 1
  | .manifest => 2
  | .toolchainPin => 3
  | .ci => 4
  | .container => 5
  | .envNames => 6
  | .agentManifest => 7

theorem rank_injective : Function.Injective ContractKind.rank := by
  intro kind other h
  cases kind <;> cases other <;> first | rfl | cases h

/-- A kind is before another when the table has it first. -/
instance kindOrder : PartialOrder ContractKind := PartialOrder.lift ContractKind.rank rank_injective

theorem contractPatterns_sorted : contractPatterns.Pairwise fun a b => a.2 ≤ b.2 := by
  show contractPatterns.Pairwise fun a b => a.2.rank ≤ b.2.rank
  decide +kernel

/-! ## Names and paths -/

/-- A file name. -/
def IsFileName (name : Str) : Prop := codePoint '/' ∉ name ∧ codePoint '\\' ∉ name

instance (name : Str) : Decidable (IsFileName name) := inferInstanceAs (Decidable (_ ∧ _))

/-- `directory/name`. -/
def under (directory name : Str) : Str := directory ++ codePoint '/' :: name

theorem normalised_name {name : Str} (h : IsFileName name) : normalised name = name := by
  unfold normalised removePrefix
  rw [asSlashes_of_no_backslash h.2]
  refine if_neg fun hdot => ?_
  exact h.1 ((List.isPrefixOf_iff_prefix.mp hdot).subset (by simp [lit]))

theorem asSlashes_under {directory name : Str} (h : IsFileName name) :
    asSlashes (under directory name) = under (asSlashes directory) name := by
  unfold under
  rw [asSlashes, List.map_append, List.map_cons]
  exact congrArg₂ _ rfl (congrArg₂ _ rfl (asSlashes_of_no_backslash h.2))

/-- The last name of a file in a directory is its own. -/
theorem lastComponent_under {directory name : Str} (h : IsFileName name) :
    lastComponent (normalised (under directory name)) = name := by
  rw [lastComponent_normalised, asSlashes_under h]
  refine (eq_lastComponent (mem_starts_iff.mpr (Or.inr ?_)) h.1).symm
  exact ⟨asSlashes directory, rfl⟩

/-! ## Patterns that ask for more than the name -/

/-- A pattern that takes a path for its directories: workflows, or behind `**/` a
star that takes a slash. -/
def Reaches (path pattern : Str) : Prop :=
  (pattern ∈ workflowPatterns ∧ fnmatch path pattern = true) ∨
    ∃ q ∈ spanningPatterns, pattern = lit "**/" ++ q ∧
      ∃ s ∈ afterSlash path, codePoint '/' ∈ s ∧ fnmatch s q = true

theorem classifies_of_reaches {path pattern : Str} (h : Reaches path pattern) :
    classifies path pattern = true := by
  rcases h with ⟨hw, hmatch⟩ | ⟨q, -, rfl, s, hs, -, hmatch⟩
  · exact (classifies_workflow_iff hw).mpr hmatch
  · exact classifies_recursive_iff.mpr (Or.inl ⟨s, hs, hmatch⟩)

section Below

variable {path name : Str}

/-- A recursive pattern that holds behind a slash takes the last name, or its star
takes a slash. -/
theorem recursive_below {q s : Str} (hq : q ∈ recursivePatterns) (hs : s ∈ afterSlash path)
    (hmatch : fnmatch s q = true) :
    fnmatch (lastComponent path) q = true ∨ Reaches path (lit "**/" ++ q) := by
  have hstart : s ∈ starts path := List.mem_cons_of_mem _ hs
  rcases (recursive_forms hq).2 with hname | rfl | hspan
  · obtain ⟨hplain, hslash, -⟩ :=
      isPlainName_iff.mp (List.all_eq_true.mp recursiveNames_plain q hname)
    have heq := (fnmatch_plain_iff hplain).mp hmatch
    rw [← eq_lastComponent hstart (heq ▸ hslash)]
    exact Or.inl hmatch
  · obtain ⟨tail, htail, hproj⟩ := fnmatch_star_iff.mp hmatch
    obtain ⟨hplain, hslash, -⟩ := isPlainName_iff.mp csproj_plain
    rw [(fnmatch_plain_iff hplain).mp hproj] at htail
    have hending := suffix_lastComponent htail hslash
    rw [lastComponent_start hstart] at hending
    exact Or.inl (fnmatch_star_iff.mpr ⟨_, hending, (fnmatch_plain_iff hplain).mpr rfl⟩)
  · by_cases hslash : codePoint '/' ∈ s
    · exact Or.inr (Or.inr ⟨q, hspan, rfl, s, hs, hslash, hmatch⟩)
    · rw [← eq_lastComponent hstart hslash]
      exact Or.inl hmatch

/-- A pattern takes a path for its last name or for its directories. -/
theorem classifies_below_iff (hname : IsFileName name) (hlast : lastComponent path = name)
    {pattern : Str} (hp : pattern ∈ contractPatterns.map Prod.fst) :
    classifies path pattern = true ↔ classifies name pattern = true ∨ Reaches path pattern := by
  have hself := lastComponent_of_no_slash hname.1
  rcases mem_contractPatterns_iff.mp hp with ⟨q, hq, rfl⟩ | hbare | hw
  · rw [classifies_recursive_iff, classifies_recursive_iff, hlast, hself,
      afterSlash_eq_nil hname.1]
    constructor
    · rintro (⟨s, hs, hmatch⟩ | hmatch)
      · rcases recursive_below hq hs hmatch with hown | hreach
        · exact Or.inl (Or.inr (hlast ▸ hown))
        · exact Or.inr hreach
      · exact Or.inl (Or.inr hmatch)
    · rintro ((⟨s, hs, -⟩ | hmatch) | hreach)
      · cases hs
      · exact Or.inr hmatch
      · have hclass := classifies_recursive_iff.mp (classifies_of_reaches hreach)
        rwa [hlast] at hclass
  · rw [classifies_bare_iff hbare, classifies_bare_iff hbare, hlast, hself]
    refine ⟨Or.inl, fun h => h.elim id fun hreach => ?_⟩
    rw [← hlast]
    exact (classifies_bare_iff hbare).mp (classifies_of_reaches hreach)
  · constructor
    · intro hmatch
      exact Or.inr (Or.inl ⟨hw, (classifies_workflow_iff hw).mp hmatch⟩)
    · rintro (hmatch | hreach)
      · have hslash := mem_of_fnmatch (workflow_forms pattern hw).1 (by decide) (by decide)
          ((classifies_workflow_iff hw).mp hmatch)
        exact absurd hslash hname.1
      · exact classifies_of_reaches hreach

end Below

/-! ## Depth -/

/-- A directory leaves the kind of a file name alone exactly when every pattern that
takes the path for its directories has an entry of no later kind that takes the
name. -/
theorem depth_ignored_iff {directory name : Str} (hname : IsFileName name) :
    classifyContractPath (under directory name) = classifyContractPath name ↔
      ∀ entry ∈ contractPatterns, Reaches (normalised (under directory name)) entry.1 →
        ∃ own ∈ contractPatterns, classifies name own.1 = true ∧ own.2 ≤ entry.2 := by
  have hbelow : ∀ entry ∈ contractPatterns,
      classifies (normalised (under directory name)) entry.1 = true ↔
        classifies name entry.1 = true ∨ Reaches (normalised (under directory name)) entry.1 :=
    fun entry hentry =>
      classifies_below_iff hname (lastComponent_under hname) (List.mem_map_of_mem hentry)
  unfold classifyContractPath
  rw [normalised_name hname, find?_wider_iff contractPatterns_sorted fun entry hentry hown =>
    (hbelow entry hentry).mpr (Or.inl hown)]
  constructor
  · intro h entry hentry hreach
    exact h entry hentry ((hbelow entry hentry).mpr (Or.inr hreach))
  · intro h entry hentry hclass
    rcases (hbelow entry hentry).mp hclass with hown | hreach
    · exact ⟨entry, hentry, hown, le_rfl⟩
    · exact h entry hentry hreach

/-- No directory of `services/api/package.json` comes before its name. -/
theorem depth_ignored_service :
    classifyContractPath (under "services/api" "package.json") = some .manifest ∧
      ∀ entry ∈ contractPatterns,
        Reaches (normalised (under "services/api" "package.json")) entry.1 →
          ∃ own ∈ contractPatterns, classifies "package.json" own.1 = true ∧ own.2 ≤ entry.2 :=
  have hkinds : classifyContractPath (under "services/api" "package.json") = some .manifest ∧
      classifyContractPath "package.json" = some .manifest ∧ IsFileName "package.json" := by
    decide +kernel
  ⟨hkinds.1, (depth_ignored_iff hkinds.2.2).mp (hkinds.1.trans hkinds.2.1.symm)⟩

/-- The name of a directory makes a manifest of a file. -/
theorem directory_makes_manifest :
    classifyContractPath (under "src/requirements" "notes.txt") = some .manifest ∧
      classifyContractPath "notes.txt" = none := by
  decide +kernel

end DevRepro.Project
