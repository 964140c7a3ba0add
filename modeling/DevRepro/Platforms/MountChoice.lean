import DevRepro.Lib.Sorting
import DevRepro.Platforms.Mounts
import DevRepro.Platforms.Shadowing

/-!
# The mount of a path

A path is on the deepest mount point that contains it, component by component, and of the entries
of that mount point on the one that is listed last, which covers the others: `IsMountOf`.
`classify_path` takes the first listed entry of the longest mount point that the text of the
path begins with: `IsFound`.  `classified_iff` says for which tables and paths the two give the same.
-/

namespace DevRepro.Platforms

open DevRepro.Python DevRepro.Lib

/-! ## Components -/

/-- The components of a path; slashes that follow each other count as one. -/
def pathNames (path : Str) : List Str := (path.splitOn posixSep).filter (· ≠ [])

theorem pathNames_append_sep (a b : Str) :
    pathNames (a ++ posixSep :: b) = pathNames a ++ pathNames b := by
  rw [pathNames, List.splitOn_append_cons_self, List.filter_append]
  rfl

theorem pathNames_sep (s : Str) : pathNames (posixSep :: s) = pathNames s := pathNames_append_sep [] s

theorem pathNames_join {names : List Str} (h : ∀ name ∈ names, name ≠ [] ∧ posixSep ∉ name) :
    pathNames (join "/" names) = names := by
  cases names with
  | nil => rfl
  | cons name names =>
    have hsplit : (join "/" (name :: names)).splitOn posixSep = name :: names := by
      rw [join_eq_intercalate]
      exact List.splitOn_intercalate _ (fun name hname => (h name hname).2) (List.cons_ne_nil _ _)
    rw [pathNames, hsplit]
    exact List.filter_eq_self.mpr fun name hname => decide_eq_true (h name hname).1

theorem join_append {before behind : List Str} (hbefore : before ≠ []) (hbehind : behind ≠ []) :
    join "/" (before ++ behind) = join "/" before ++ posixSep :: join "/" behind := by
  obtain ⟨first, rest, rfl⟩ := List.exists_cons_of_ne_nil hbehind
  induction before with
  | nil => exact absurd rfl hbefore
  | cons name names ih =>
    cases names with
    | nil =>
      show name ++ "/" ++ join "/" (first :: rest) = _
      rw [List.append_assoc]
      rfl
    | cons next names =>
      rw [List.cons_append, List.cons_append, join_cons_cons, join_cons_cons, ← List.cons_append,
        ih (List.cons_ne_nil _ _), List.append_assoc (name ++ _)]

theorem pathNames_pathOf {names : List Str} (h : ∀ name ∈ names, name ≠ [] ∧ posixSep ∉ name) :
    pathNames (pathOf names) = names := by
  rw [pathOf, pathNames_sep, pathNames_join h]

/-- A mount point contains a path when the components of the path begin with its own. -/
def Contains (m : Mount) (path : Str) : Prop := m.names <+: pathNames path

instance instDecidableContains (m : Mount) (path : Str) : Decidable (Contains m path) :=
  inferInstanceAs (Decidable (m.names <+: pathNames path))

/-! ## What the text of a path begins with -/

theorem spells_iff {path point : Str} :
    spells path point = true ↔
      path = point ∨ ∃ rest, path = stripEnd (fun c => c = posixSep) point ++ posixSep :: rest := by
  rw [spells, Bool.or_eq_true, decide_eq_true_eq, startsWith, List.isPrefixOf_iff_prefix]
  refine or_congr_right ⟨?_, ?_⟩
  · rintro ⟨rest, hrest⟩
    exact ⟨rest, by rw [← hrest, List.append_assoc]; rfl⟩
  · rintro ⟨rest, hrest⟩
    exact ⟨rest, by rw [hrest, List.append_assoc]; rfl⟩

namespace Mount

/-- The root is nothing before its slash; every other mount point ends in a name. -/
theorem stripEnd_point (m : Mount) :
    stripEnd (fun c => c = posixSep) m.point = if m.names = [] then [] else m.point := by
  by_cases h : m.names = []
  · rw [if_pos h, point, pathOf, h]
    decide
  · rw [if_neg h]
    refine stripEnd_eq_self fun c hc => decide_eq_false ?_
    have hjoin : join "/" m.names ≠ [] := by
      intro hnil
      have hnames := pathNames_join m.named
      rw [hnil] at hnames
      exact h hnames.symm
    rw [point, pathOf, List.getLast?_cons_of_ne_nil hjoin] at hc
    exact join_getLast m.named c hc

theorem pathNames_point (m : Mount) : pathNames m.point = m.names := pathNames_pathOf m.named

theorem point_isStart {m : Mount} {path : Str} (h : spells path m.point = true) : m.point <+: path := by
  rw [spells_iff, stripEnd_point] at h
  rcases h with rfl | ⟨rest, rfl⟩
  · exact List.prefix_refl _
  · split
    · rename_i hroot
      exact ⟨rest, by rw [point, pathOf, hroot]; rfl⟩
    · exact List.prefix_append _ _

theorem contains_of_spells {m : Mount} {path : Str} (h : spells path m.point = true) :
    Contains m path := by
  rw [spells_iff, stripEnd_point] at h
  rcases h with rfl | ⟨rest, rfl⟩
  · rw [Contains, pathNames_point]
  · rw [Contains, pathNames_append_sep]
    split
    · rename_i hroot
      rw [hroot]
      exact List.nil_prefix
    · rw [pathNames_point]
      exact List.prefix_append _ _

/-- A path in its shortest spelling begins with every mount point that contains it. -/
theorem spells_of_contains {m : Mount} {names : List Str}
    (h : ∀ name ∈ names, name ≠ [] ∧ posixSep ∉ name) (hcontains : Contains m (pathOf names)) :
    spells (pathOf names) m.point = true := by
  rw [Contains, pathNames_pathOf h] at hcontains
  obtain ⟨rest, rfl⟩ := hcontains
  rw [spells_iff, stripEnd_point]
  by_cases hrest : rest = []
  · left
    rw [hrest, List.append_nil]
    rfl
  · right
    by_cases hroot : m.names = []
    · rw [if_pos hroot, hroot]
      exact ⟨_, rfl⟩
    · rw [if_neg hroot, pathOf, join_append hroot hrest]
      exact ⟨_, rfl⟩

theorem spells_point_iff {m f : Mount} : spells m.point f.point = true ↔ f.names <+: m.names := by
  have hnames : Contains f m.point ↔ f.names <+: m.names := by rw [Contains, pathNames_point]
  rw [← hnames]
  exact ⟨contains_of_spells, spells_of_contains m.named⟩

end Mount

/-! ## The entry of a path -/

variable (table : List Mount) (path : Str)

/-- The deepest mount point that contains the path, and its last entry. -/
def IsMountOf (m : Mount) : Prop :=
  ∃ before behind, table = before ++ m :: behind ∧ Contains m path ∧
    (∀ other ∈ table, Contains other path → other.names.length ≤ m.names.length) ∧
    ∀ other ∈ behind, other.names ≠ m.names

/-- The longest mount point that the path begins with, and its first entry. -/
def IsFound (f : Mount) : Prop :=
  ∃ before behind, table = before ++ f :: behind ∧ spells path f.point = true ∧
    (∀ other ∈ table, spells path other.point = true → other.point.length ≤ f.point.length) ∧
    ∀ other ∈ before, other.point ≠ f.point

variable {table path}

theorem exists_isMountOf (h : ∃ m ∈ table, Contains m path) : ∃ m, IsMountOf table path m := by
  obtain ⟨m, hm, hcontains⟩ := h
  obtain ⟨before, best, behind, hsplit, hbest, hmax, hlast⟩ :=
    exists_last_best (p := fun m => decide (Contains m path)) (fun m : Mount => m.names.length)
      ⟨m, hm, decide_eq_true hcontains⟩
  have hbest : Contains best path := of_decide_eq_true hbest
  refine ⟨best, before, behind, hsplit, hbest, fun other hother hin => hmax other hother (decide_eq_true hin), ?_⟩
  intro other hother hnames
  have hin : Contains other path := by
    rw [Contains, hnames]
    exact hbest
  have hless := hlast other hother (decide_eq_true hin)
  rw [hnames] at hless
  exact lt_irrefl _ hless

theorem exists_isFound (h : ∃ m ∈ table, spells path m.point = true) : ∃ f, IsFound table path f := by
  obtain ⟨before, best, behind, hsplit, hbest, hmax, hfirst⟩ :=
    exists_first_best (fun m : Mount => m.point.length) h
  refine ⟨best, before, behind, hsplit, hbest, hmax, ?_⟩
  intro other hother hpoint
  have hless := hfirst other hother (by rw [hpoint]; exact hbest)
  rw [hpoint] at hless
  exact lt_irrefl _ hless

/-! ## The verdict -/

theorem kind_mountVerdict (point fstype : Str) : (mountVerdict point fstype).kind ≠ "unknown" := by
  intro h
  have hhead := congrArg List.head? h
  rw [mountVerdict] at hhead
  split at hhead
  · exact absurd hhead (by simp [lit, codePoint])
  · exact absurd hhead (by simp [lit, codePoint])

/-- Two entries of the same type, and of the same mount point where the verdict names it. -/
def SameVerdict (f m : Mount) : Prop := f.fstype = m.fstype ∧ (m.fstype ∈ slowFilesystems → f.point = m.point)

theorem mountVerdict_eq_iff {f m : Mount} :
    mountVerdict f.point f.fstype = mountVerdict m.point m.fstype ↔ SameVerdict f m := by
  constructor
  · intro h
    have hkind := congrArg MountVerdict.kind h
    have hdetail := congrArg MountVerdict.detail h
    by_cases hf : f.fstype ∈ slowFilesystems <;> by_cases hm : m.fstype ∈ slowFilesystems
    · simp only [mountVerdict, hf, hm, if_true] at hkind hdetail
      have htype := List.append_cancel_left hkind
      rw [htype] at hdetail
      exact ⟨htype, fun _ => List.append_cancel_left (List.append_cancel_right hdetail)⟩
    · simp only [mountVerdict, hf, hm, if_true, if_false] at hkind
      exact absurd (congrArg List.head? hkind) (by simp [lit, codePoint])
    · simp only [mountVerdict, hf, hm, if_true, if_false] at hkind
      exact absurd (congrArg List.head? hkind) (by simp [lit, codePoint])
    · simp only [mountVerdict, hf, hm, if_false] at hkind
      exact ⟨List.append_cancel_left hkind, fun h => absurd h hm⟩
  · rintro ⟨htype, hpoint⟩
    rw [mountVerdict, mountVerdict, htype]
    split
    · rename_i hslow
      rw [hpoint hslow]
    · rfl

theorem classifyPath_linux (hslash : ntSep ∉ path) (mounts : List (Str × Str)) :
    classifyPath path "linux" false mounts =
      ((mounts.find? fun mount => spells path mount.1).elim unknownVerdict fun mount =>
        mountVerdict mount.1 mount.2) := by
  have hpath : (path.map fun c => if c = ntSep then posixSep else c) = path := by
    refine (List.map_congr_left fun c hc => ?_).trans (List.map_id path)
    exact if_neg fun heq : c = ntSep => hslash (heq ▸ hc)
  have hplatform : isWindows "linux" = false := by decide
  rw [classifyPath, hpath, hplatform, if_neg Bool.false_ne_true, if_neg Bool.false_ne_true]
  cases mounts.find? fun mount => spells path mount.1 with
  | none => rfl
  | some mount => rfl

theorem longerFirst_trans (a b c : Str × Str) (hab : longerFirst a b = true) (hbc : longerFirst b c = true) :
    longerFirst a c = true :=
  decide_eq_true ((of_decide_eq_true hbc).trans (of_decide_eq_true hab))

theorem longerFirst_total (a b : Str × Str) : (longerFirst a b || longerFirst b a) = true := by
  rw [Bool.or_eq_true, longerFirst, longerFirst, decide_eq_true_eq, decide_eq_true_eq]
  exact le_total _ _

/-- Of the sorted table the code takes the entry that is found. -/
theorem find?_spells {f : Mount} (h : IsFound table path f) :
    ((table.map Mount.pair).mergeSort longerFirst).find? (fun mount => spells path mount.1) =
      some f.pair := by
  obtain ⟨before, behind, hsplit, hspells, hmax, hfirst⟩ := h
  have htable : ((table.map Mount.pair).find? fun mount => decide (mount.1 = f.point)) = some f.pair := by
    rw [hsplit, List.map_append, List.map_cons]
    refine List.find?_eq_some_iff_append.mpr ⟨decide_eq_true rfl, _, _, rfl, ?_⟩
    intro mount hmount
    obtain ⟨other, hother, rfl⟩ := List.mem_map.mp hmount
    exact Bool.not_eq_true' _ ▸ decide_eq_false (hfirst other hother)
  refine find?_mergeSort longerFirst_trans longerFirst_total ?_ ?_ ?_ htable
  · intro a _ b _ ha hb
    rw [decide_eq_true_eq] at ha hb
    exact decide_eq_true (by rw [ha, hb])
  · intro a _ ha
    rw [decide_eq_true_eq] at ha
    rw [ha]
    exact hspells
  · intro a _ b hb ha hbspells hne
    obtain ⟨m, hm, rfl⟩ := List.mem_map.mp hb
    rw [decide_eq_true_eq] at ha
    rw [decide_eq_false_iff_not] at hne
    refine decide_eq_false fun hle => hne ?_
    rw [ha] at hle
    -- two starts of one text that are as long as each other
    have hlength : m.point.length = f.point.length := (hmax m hm hbspells).antisymm hle
    exact (List.prefix_of_prefix_length_le (Mount.point_isStart hbspells)
      (Mount.point_isStart hspells) hlength.le).eq_of_length hlength

theorem classifyPath_of_isFound (hslash : ntSep ∉ path) {f : Mount} (h : IsFound table path f) :
    classifyPath path "linux" false ((table.map Mount.pair).mergeSort longerFirst) =
      mountVerdict f.point f.fstype := by
  rw [classifyPath_linux hslash, find?_spells h]
  rfl

theorem classifyPath_of_forall (hslash : ntSep ∉ path)
    (h : ∀ m ∈ table, spells path m.point = false) :
    classifyPath path "linux" false ((table.map Mount.pair).mergeSort longerFirst) = unknownVerdict := by
  have hnone : ((table.map Mount.pair).mergeSort longerFirst).find? (fun mount => spells path mount.1) = none := by
    rw [List.find?_eq_none]
    intro mount hmount
    obtain ⟨m, hm, rfl⟩ := List.mem_map.mp (List.mem_mergeSort.mp hmount)
    exact Bool.eq_false_iff.mp (h m hm)
  rw [classifyPath_linux hslash, hnone]
  rfl

/-- The verdict is unknown when the path begins with no mount point. -/
theorem kind_classifyPath_iff (hslash : ntSep ∉ path) :
    (classifyPath path "linux" false ((table.map Mount.pair).mergeSort longerFirst)).kind = "unknown" ↔
      ∀ m ∈ table, spells path m.point = false := by
  constructor
  · intro hkind
    by_contra hspells
    push Not at hspells
    obtain ⟨m, hm, hspelled⟩ := hspells
    obtain ⟨f, hf⟩ := exists_isFound ⟨m, hm, Bool.eq_true_of_not_eq_false hspelled⟩
    rw [classifyPath_of_isFound hslash hf] at hkind
    exact kind_mountVerdict _ _ hkind
  · intro hnone
    rw [classifyPath_of_forall hslash hnone]
    rfl

/-! ## Classification by the mount -/

/-- The code gives every path the verdict of its mount, and is at a loss only where it has none. -/
def Classified (table : List Mount) (path : Str) : Prop :=
  ∃ mounts, parseProcMounts (procMounts table) = some mounts ∧
    (∀ m, IsMountOf table path m →
      classifyPath path "linux" false mounts = mountVerdict m.point m.fstype) ∧
    ((classifyPath path "linux" false mounts).kind = "unknown" ↔ ∀ m ∈ table, ¬Contains m path)

/-- The entry that the code finds says the same as the one that the path is on. -/
def Agrees (table : List Mount) (path : Str) : Prop :=
  ∀ m, IsMountOf table path m → ∃ f, IsFound table path f ∧ SameVerdict f m

/-- A path without backslashes is classified by its mount if and only if the first entry of the
longest mount point that the path begins with has the type of the last entry of the deepest one
that contains it, and its mount point where the type is a slow one. -/
theorem classified_iff (table : List Mount) (path : Str) (hslash : ntSep ∉ path) :
    Classified table path ↔ Agrees table path := by
  have hsome := parseProcMounts_procMounts table
  constructor
  · rintro ⟨mounts, hmounts, hverdict, hunknown⟩ m hm
    obtain rfl : _ = mounts := Option.some.inj (hsome.symm.trans hmounts)
    obtain ⟨before, behind, hsplit, hcontains, -⟩ := id hm
    have hmem : m ∈ table := by
      rw [hsplit]
      exact List.mem_append_right _ List.mem_cons_self
    have hknown := mt hunknown.mp fun h => h m hmem hcontains
    rw [kind_classifyPath_iff hslash] at hknown
    push Not at hknown
    obtain ⟨other, hother, hspells⟩ := hknown
    obtain ⟨f, hf⟩ := exists_isFound ⟨other, hother, Bool.eq_true_of_not_eq_false hspells⟩
    refine ⟨f, hf, mountVerdict_eq_iff.mp ?_⟩
    rw [← classifyPath_of_isFound hslash hf, hverdict m hm]
  · intro hagrees
    refine ⟨_, hsome, fun m hm => ?_, ?_⟩
    · obtain ⟨f, hf, hsame⟩ := hagrees m hm
      rw [classifyPath_of_isFound hslash hf, mountVerdict_eq_iff.mpr hsame]
    · rw [kind_classifyPath_iff hslash]
      constructor
      · intro hnone m hm hcontains
        obtain ⟨best, hbest⟩ := exists_isMountOf ⟨m, hm, hcontains⟩
        obtain ⟨f, ⟨before, behind, hsplit, hspells, -⟩, -⟩ := hagrees best hbest
        rw [hnone f (by rw [hsplit]; exact List.mem_append_right _ List.mem_cons_self)] at hspells
        cases hspells
      · intro hnone m hm
        exact Bool.eq_false_iff.mpr fun hspells => hnone m hm (Mount.contains_of_spells hspells)

/-- Of a path in its shortest spelling the entry that is found has the deepest mount point. -/
theorem point_of_isFound {names : List Str} (h : ∀ name ∈ names, name ≠ [] ∧ posixSep ∉ name) {f m : Mount}
    (hf : IsFound table (pathOf names) f) (hm : IsMountOf table (pathOf names) m) : f.point = m.point := by
  obtain ⟨_, _, hfsplit, hspells, hlongest, -⟩ := hf
  obtain ⟨_, _, hmsplit, hcontains, hdeepest, -⟩ := hm
  have hfmem : f ∈ table := hfsplit ▸ List.mem_append_right _ List.mem_cons_self
  have hmmem : m ∈ table := hmsplit ▸ List.mem_append_right _ List.mem_cons_self
  have hinner : f.names <+: m.names :=
    List.prefix_of_prefix_length_le (Mount.contains_of_spells hspells) hcontains
      (hdeepest f hfmem (Mount.contains_of_spells hspells))
  have hstart : f.point <+: m.point := Mount.point_isStart (Mount.spells_point_iff.mpr hinner)
  exact hstart.eq_of_length_le (hlongest m hmmem (Mount.spells_of_contains h hcontains))

/-- A table without two types at one mount point is right about every path in its shortest
spelling: the code fails on stacked mounts and on slashes that follow each other. -/
theorem agrees_of_unstacked {names : List Str} (h : ∀ name ∈ names, name ≠ [] ∧ posixSep ∉ name)
    (hunstacked : ∀ a ∈ table, ∀ b ∈ table, a.point = b.point → a.fstype = b.fstype) :
    Agrees table (pathOf names) := by
  intro m hm
  obtain ⟨before, behind, hsplit, hcontains, -⟩ := id hm
  have hmem : m ∈ table := hsplit ▸ List.mem_append_right _ List.mem_cons_self
  obtain ⟨f, hf⟩ := exists_isFound ⟨m, hmem, Mount.spells_of_contains h hcontains⟩
  obtain ⟨fbefore, fbehind, hfsplit, -⟩ := id hf
  have hfmem : f ∈ table := hfsplit ▸ List.mem_append_right _ List.mem_cons_self
  have hpoint := point_of_isFound h hf hm
  exact ⟨f, hf, hunstacked f hfmem m hmem hpoint, fun _ => hpoint⟩

/-! ## Stacked mounts -/

theorem Escapes.plainText {s : Str} (h : s.all (fun c => !isSpace c && c != codePoint '\\') = true) :
    Escapes s s := by
  induction s with
  | nil => exact .nil
  | cons c s ih =>
    rw [List.all_cons, Bool.and_eq_true, Bool.and_eq_true, Bool.not_eq_true', bne_iff_ne] at h
    exact .plain c h.1.1 h.1.2 (ih h.2)

theorem IsWord.ofAll {s : Str} (hne : s ≠ []) (h : s.all (fun c => !isSpace c) = true) : IsWord s :=
  ⟨hne, fun c hc => (Bool.not_eq_true' _).mp (List.all_eq_true.mp h c hc)⟩

theorem data_named : ∀ name ∈ [lit "data"], name ≠ [] ∧ posixSep ∉ name := by decide

theorem data_escaped : Escapes "/data" (pathOf ["data"]) := Escapes.plainText (by decide)

theorem rw_unbroken : Unbroken isLineBreak "rw 0 0" := by
  have hall : (lit "rw 0 0").all (fun c => !isLineBreak c) = true := by decide
  exact fun c hc => (Bool.not_eq_true' _).mp (List.all_eq_true.mp hall c hc)

/-- An entry at `/data`. -/
def dataMount (source fstype : Str) (hsource : IsWord source) (hfstype : IsWord fstype) : Mount :=
  ⟨source, ["data"], "/data", fstype, "rw 0 0", data_named, data_escaped, hsource, hfstype, rw_unbroken⟩

theorem disk_word : IsWord "/dev/sdb1" := IsWord.ofAll (by decide) (by decide)

theorem ext4_word : IsWord "ext4" := IsWord.ofAll (by decide) (by decide)

theorem share_word : IsWord "server:/export" := IsWord.ofAll (by decide) (by decide)

theorem nfs_word : IsWord "nfs" := IsWord.ofAll (by decide) (by decide)

def dataDisk : Mount := dataMount "/dev/sdb1" "ext4" disk_word ext4_word

/-- A share that is mounted over the disk. -/
def dataShare : Mount := dataMount "server:/export" "nfs" share_word nfs_word

/-- A path on the disk, when nothing is mounted over it. -/
theorem classified_iff_disk : Classified [dataDisk] "/data/app" := by
  refine (classified_iff [dataDisk] "/data/app" (by decide)).mpr ?_
  have happ : ∀ name ∈ [lit "data", lit "app"], name ≠ [] ∧ posixSep ∉ name := by decide
  refine agrees_of_unstacked happ ?_
  intro a ha b hb _
  rw [List.mem_singleton.mp ha, List.mem_singleton.mp hb]

/-- The code classifies a path by the disk below the share. -/
theorem stacked_mount_misread :
    ¬(∀ (table : List Mount) (path : Str), path.head? = some posixSep → ntSep ∉ path →
      Classified table path) := by
  intro h
  obtain ⟨mounts, hmounts, hverdict, -⟩ :=
    h [dataDisk, dataShare] "/data/app" (by decide) (by decide)
  obtain rfl : _ = mounts := Option.some.inj ((parseProcMounts_procMounts _).symm.trans hmounts)
  have hshare : IsMountOf [dataDisk, dataShare] "/data/app" dataShare :=
    ⟨[dataDisk], [], rfl, by decide, by decide, by decide⟩
  have hdisk : IsFound [dataDisk, dataShare] "/data/app" dataDisk :=
    ⟨[], [dataShare], rfl, by decide, by decide, by decide⟩
  have hsame := hverdict dataShare hshare
  rw [classifyPath_of_isFound (by decide) hdisk, mountVerdict_eq_iff] at hsame
  exact absurd hsame.1 (by decide)

end DevRepro.Platforms
