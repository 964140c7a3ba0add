import DevRepro.Project.Contract
import DevRepro.Project.GitPaths
import DevRepro.Python.JsonDump

/-!
# Changed contract files

`changed_files` and `contract_changes` of `project/contract.py`, on the listings that
git prints.

`changedFiles` takes the printed form of a path for the path.  That is right for a
path that is printed as it is (`taken_of_legible`), and `exact_iff_harmless`
says on which listings the changes reported are those of the paths behind it.
-/

namespace DevRepro.Project

open DevRepro.Python DevRepro.Lib

/-! ## Changed files -/

structure CommandResult where
  ok : Bool
  stdout : Str

/-- `CommandRunner.run` with its timeout in seconds. -/
abbrev CommandRunner := List Str → Nat → CommandResult

/-- A base that is given and not empty. -/
def givenBase (base : Option Str) : Option Str := base.filter fun b => b ≠ []

def threeDotDiff (root base : Str) : List Str :=
  ["git", "-C", root, "diff", "--name-only", base ++ lit "...HEAD"]

def twoDotDiff (root base : Str) : List Str := ["git", "-C", root, "diff", "--name-only", base]

def statusCommand (root : Str) : List Str :=
  ["git", "-C", root, "status", "--porcelain", "--untracked-files=all"]

/-- `_RENAME.match(entry)` with its group, on a text without a newline. -/
def renameTarget : Str → Option Str
  | [] => none
  | c :: rest =>
    if arrow.isPrefixOf (c :: rest) then some ((c :: rest).drop arrow.length)
    else renameTarget rest

/-- The text behind the first arrow, or the whole text. -/
def behindArrow (entry : Str) : Str :=
  match renameTarget entry with
  | some target => strip target
  | none => entry

/-- The path in a line of names. -/
def diffPath (line : Str) : Option Str := if strip line = [] then none else some (strip line)

/-- The path in a line of the porcelain. -/
def statusPath (line : Str) : Option Str :=
  let entry := if 3 < line.length then strip (line.drop 3) else []
  if entry = [] then none else some (behindArrow entry)

/-- `changed_files`. -/
def changedFiles (run : CommandRunner) (root : Str) (base : Option Str) : List Str :=
  match givenBase base with
  | some base =>
    let first := run (threeDotDiff root base) 30
    let result := if first.ok then first else run (twoDotDiff root base) 30
    if result.ok then (splitlines result.stdout).filterMap diffPath else []
  | none =>
    let result := run (statusCommand root) 30
    if result.ok then (splitlines result.stdout).filterMap statusPath else []

/-! ## Contract changes -/

structure ContractChange where
  path : Str
  kind : ContractKind
  deriving DecidableEq

/-- The text of a kind in the table. -/
def ContractKind.text : ContractKind → Str
  | .policy => "policy"
  | .lockfile => "lockfile"
  | .manifest => "manifest"
  | .toolchainPin => "toolchain-pin"
  | .ci => "ci"
  | .container => "container"
  | .envNames => "env-names"
  | .agentManifest => "agent-manifest"

/-- The loop of `contract_changes`. -/
def collect : List Str → List Str → List ContractChange
  | [], _ => []
  | path :: rest, seen =>
    match classifyContractPath path with
    | none => collect rest seen
    | some kind =>
      if path ∈ seen then collect rest seen else ⟨path, kind⟩ :: collect rest (path :: seen)

/-- The order of `(c.kind, c.path)`. -/
def changeLe (a b : ContractChange) : Bool :=
  if a.kind.text = b.kind.text then strLe a.path b.path else strLe a.kind.text b.kind.text

/-- `contract_changes`. -/
def contractChanges (run : CommandRunner) (root : Str) (base : Option Str) : List ContractChange :=
  (collect (changedFiles run root base) []).mergeSort changeLe

/-- The changes are one for each of the paths that has a kind, with that kind. -/
structure Exact (changes : List ContractChange) (paths : List Str) : Prop where
  once : (changes.map ContractChange.path).Nodup
  mem_iff : ∀ change, change ∈ changes ↔
    change.path ∈ paths ∧ classifyContractPath change.path = some change.kind

/-- No changes at all miss a path of a kind. -/
theorem not_exact_nil {path : Str} (h : classifyContractPath path ≠ none) : ¬Exact [] [path] := by
  intro hexact
  obtain ⟨kind, hkind⟩ := Option.ne_none_iff_exists'.mp h
  cases (hexact.mem_iff ⟨path, kind⟩).mpr ⟨List.mem_singleton_self path, hkind⟩

/-- A path that was seen, or has no kind, is no change of the paths behind it. -/
theorem skipped_iff {change : ContractChange} {path : Str} {rest seen : List Str}
    (h : path ∈ seen ∨ classifyContractPath path = none) :
    (change.path ∈ rest ∧ change.path ∉ seen ∧
        classifyContractPath change.path = some change.kind) ↔
      change.path ∈ path :: rest ∧ change.path ∉ seen ∧
        classifyContractPath change.path = some change.kind := by
  refine and_congr_left ?_
  rintro ⟨hseen, hclass⟩
  rw [List.mem_cons, or_iff_right]
  intro heq
  rcases h with hpath | hnone
  · exact hseen (heq ▸ hpath)
  · rw [heq, hnone] at hclass
    cases hclass

/-- The loop takes the paths of a kind that it has not seen. -/
theorem mem_collect {change : ContractChange} (paths seen : List Str) :
    change ∈ collect paths seen ↔ change.path ∈ paths ∧ change.path ∉ seen ∧
      classifyContractPath change.path = some change.kind := by
  induction paths generalizing seen with
  | nil => simp [collect]
  | cons path rest ih =>
    rw [collect]
    cases hkind : classifyContractPath path with
    | none => exact (ih seen).trans (skipped_iff (Or.inr hkind))
    | some kind =>
      dsimp only
      split_ifs with hpath
      · exact (ih seen).trans (skipped_iff (Or.inl hpath))
      · rw [List.mem_cons, ih, List.mem_cons, List.mem_cons, not_or]
        constructor
        · rintro (rfl | ⟨hmem, ⟨-, hseen⟩, hclass⟩)
          · exact ⟨Or.inl rfl, hpath, hkind⟩
          · exact ⟨Or.inr hmem, hseen, hclass⟩
        · rintro ⟨hmem, hseen, hclass⟩
          by_cases heq : change.path = path
          · rw [heq, hkind] at hclass
            cases change
            cases hclass
            cases heq
            exact Or.inl rfl
          · exact Or.inr ⟨hmem.resolve_left heq, ⟨heq, hseen⟩, hclass⟩

theorem collect_nodup (paths seen : List Str) :
    ((collect paths seen).map ContractChange.path).Nodup := by
  induction paths generalizing seen with
  | nil => exact List.nodup_nil
  | cons path rest ih =>
    rw [collect]
    cases classifyContractPath path with
    | none => exact ih seen
    | some kind =>
      dsimp only
      split_ifs with hpath
      · exact ih seen
      · rw [List.map_cons, List.nodup_cons]
        refine ⟨fun hmem => ?_, ih _⟩
        obtain ⟨change, hchange, rfl⟩ := List.mem_map.mp hmem
        exact ((mem_collect _ _).mp hchange).2.1 List.mem_cons_self

/-- The changes are exact when the changed files have the paths of a kind. -/
theorem exact_contractChanges_iff {run : CommandRunner} {root : Str} {base : Option Str}
    {paths : List Str} :
    Exact (contractChanges run root base) paths ↔
      ∀ path, classifyContractPath path ≠ none →
        (path ∈ changedFiles run root base ↔ path ∈ paths) := by
  have hmem : ∀ change, change ∈ contractChanges run root base ↔
      change.path ∈ changedFiles run root base ∧
        classifyContractPath change.path = some change.kind := by
    intro change
    rw [contractChanges, List.mem_mergeSort, mem_collect]
    simp
  constructor
  · intro h path hclass
    obtain ⟨kind, hkind⟩ := Option.ne_none_iff_exists'.mp hclass
    have hchange := (hmem ⟨path, kind⟩).symm.trans (h.mem_iff ⟨path, kind⟩)
    constructor
    · intro hfiles
      exact (hchange.mp ⟨hfiles, hkind⟩).1
    · intro hpaths
      exact (hchange.mpr ⟨hpaths, hkind⟩).1
  · intro h
    refine ⟨?_, fun change => ?_⟩
    · have hperm := (List.mergeSort_perm (collect (changedFiles run root base) []) changeLe).map
        ContractChange.path
      exact hperm.nodup_iff.mpr (collect_nodup _ _)
    · rw [hmem]
      refine and_congr_left fun hclass => h change.path ?_
      rw [hclass]
      exact Option.some_ne_none _

/-! ## Arrows -/

theorem renameTarget_eq_none {s : Str} (h : ¬arrow <:+: s) : renameTarget s = none := by
  induction s with
  | nil => rfl
  | cons c rest ih =>
    rw [renameTarget, if_neg]
    · exact ih fun hrest => h (hrest.trans (List.suffix_cons c rest).isInfix)
    · intro hstart
      exact h (List.isPrefixOf_iff_prefix.mp hstart).isInfix

/-- The first arrow is the one behind a text that has none and does not end in the
start of one. -/
theorem renameTarget_append {old target : Str} (harrow : ¬arrow <:+: old)
    (hend : ¬lit " ->" <:+ old) : renameTarget (old ++ (arrow ++ target)) = some target := by
  induction old with
  | nil => rfl
  | cons c rest ih =>
    have hrest : renameTarget (rest ++ (arrow ++ target)) = some target :=
      ih (fun h => harrow (h.trans (List.suffix_cons c rest).isInfix))
        fun h => hend (h.trans (List.suffix_cons c rest))
    rw [List.cons_append, renameTarget, if_neg, hrest]
    intro hstart
    obtain ⟨more, hmore⟩ := List.isPrefixOf_iff_prefix.mp hstart
    -- the arrow would start in `c :: rest`, whose end it can pass by one space only
    match rest with
    | [] => cases hmore
    | [d] => cases hmore
    | [d, e] =>
      cases hmore
      exact hend List.suffix_rfl
    | d :: e :: f :: rest =>
      cases hmore
      exact harrow (List.prefix_append arrow rest).isInfix

/-- What `renameTarget` finds stands behind the first arrow. -/
theorem renameTarget_eq_some {s target : Str} (h : renameTarget s = some target) :
    ∃ old, s = old ++ (arrow ++ target) ∧ ¬arrow <:+: old ++ lit " ->" := by
  induction s with
  | nil => cases h
  | cons c rest ih =>
    rw [renameTarget] at h
    split_ifs at h with hstart
    · obtain ⟨more, hmore⟩ := List.isPrefixOf_iff_prefix.mp hstart
      rw [← hmore, List.drop_left] at h
      cases h
      exact ⟨[], hmore.symm, fun harrow => absurd harrow.length_le (by decide)⟩
    · obtain ⟨old, rfl, harrow⟩ := ih h
      refine ⟨c :: old, rfl, fun hinner => ?_⟩
      rcases List.infix_cons_iff.mp hinner with hstarts | hinner
      · refine hstart (List.isPrefixOf_iff_prefix.mpr (hstarts.trans ?_))
        exact ⟨codePoint ' ' :: target, by simp [arrow, lit]⟩
      · exact harrow hinner

theorem no_arrow_of_renameTarget {s : Str} (h : renameTarget s = none) : ¬arrow <:+: s := by
  induction s with
  | nil => exact fun harrow => absurd harrow.length_le (by decide)
  | cons c rest ih =>
    rw [renameTarget] at h
    split_ifs at h with hstart
    intro hinner
    rcases List.infix_cons_iff.mp hinner with hstarts | hinner
    · exact hstart (List.isPrefixOf_iff_prefix.mpr hstarts)
    · exact ih h hinner

/-- A part of a text: what stands behind its first arrow, without spaces at its ends,
or all of it when it has none. -/
def ShowsBehind (text part : Str) : Prop :=
  (¬arrow <:+: text ∧ part = text) ∨
    ∃ old target, text = old ++ (arrow ++ target) ∧ ¬arrow <:+: old ++ lit " ->" ∧
      part = strip target

theorem showsBehind_iff {text part : Str} : ShowsBehind text part ↔ behindArrow text = part := by
  unfold behindArrow
  constructor
  · rintro (⟨harrow, rfl⟩ | ⟨old, target, rfl, harrow, rfl⟩)
    · rw [renameTarget_eq_none harrow]
    · rw [renameTarget_append]
      · exact fun hinner => harrow (hinner.trans (List.prefix_append _ _).isInfix)
      · rintro ⟨first, rfl⟩
        exact harrow ⟨first, lit "->", by simp [arrow, lit]⟩
  · cases htarget : renameTarget text with
    | none =>
      rintro rfl
      exact Or.inl ⟨no_arrow_of_renameTarget htarget, rfl⟩
    | some target =>
      rintro rfl
      obtain ⟨old, htext, harrow⟩ := renameTarget_eq_some htarget
      exact Or.inr ⟨old, target, htext, harrow, rfl⟩

/-! ## What a line is taken for -/

/-- A text that `strip` leaves alone. -/
def Trimmed (s : Str) : Prop :=
  s ≠ [] ∧ (∀ c ∈ s.head?, isSpace c = false) ∧ ∀ c ∈ s.getLast?, isSpace c = false

theorem Trimmed.strip_eq {s : Str} (h : Trimmed s) : strip s = s := by
  rw [strip_eq_stripChars]
  exact stripChars_eq_self h.2.1 h.2.2

/-- Two texts with something between them have the start of one and the end of the
other. -/
theorem Trimmed.around {s t : Str} (hs : Trimmed s) (ht : Trimmed t) (middle : Str) :
    Trimmed (s ++ middle ++ t) := by
  obtain ⟨c, s, rfl⟩ := List.exists_cons_of_ne_nil hs.1
  refine ⟨by simp, fun d hd => hs.2.1 d hd, fun d hd => ht.2.2 d ?_⟩
  rw [List.getLast?_append_of_ne_nil _ ht.1] at hd
  exact hd

section Taken

variable {escape : CodePoint → Str}

theorem quoted_trimmed (path : Str) : Trimmed (quoted escape path) := by
  have hquote : isSpace (codePoint '"') = false := by decide
  refine ⟨List.cons_ne_nil _ _, fun c hc => ?_, fun c hc => ?_⟩
  · cases hc
    exact hquote
  · rw [quoted, ← List.cons_append,
      List.getLast?_append_of_ne_nil _ (List.cons_ne_nil _ _)] at hc
    cases hc
    exact hquote

/-- A path whose spaces are quoted is printed without spaces at its ends. -/
theorem shown_trimmed (hescape : Escaping escape) {path : Str} (hne : path ≠ []) :
    Trimmed (shown escape true path) := by
  rcases shown_cases escape true path with ⟨heq, -, hspace⟩ | heq
  · have hall : ∀ c ∈ path, isSpace c = false := by
      intro c hc
      refine isSpace_of_isPrintableAscii (shown_printable hescape c (heq ▸ hc)) ?_
      rintro rfl
      exact hspace rfl hc
    rw [heq]
    exact ⟨hne, fun c hc => hall c (List.mem_of_head? hc),
      fun c hc => hall c (List.mem_of_getLast? hc)⟩
  · rw [heq]
    exact quoted_trimmed path

theorem statusText_trimmed (hescape : Escaping escape) (e : Entry) :
    Trimmed (e.statusText escape) := by
  unfold Entry.statusText
  cases hold : e.oldPath with
  | none => exact shown_trimmed hescape e.path_ne
  | some old =>
    exact (shown_trimmed hescape (e.oldPath_ne old hold)).around
      (shown_trimmed hescape e.path_ne) arrow

/-- What an entry is taken for: what is printed of it, without spaces at its ends, or
in the status what stands behind the first arrow of that. -/
def Entry.taken (escape : CodePoint → Str) (withBase : Bool) (e : Entry) : Str :=
  if withBase then strip (e.diffLine escape) else behindArrow (e.statusText escape)

/-- The texts that the line of an entry shows in the place of a path. -/
def Entry.Shows (escape : CodePoint → Str) (withBase : Bool) (e : Entry) (part : Str) : Prop :=
  if withBase then part = strip (e.diffLine escape) else ShowsBehind (e.statusText escape) part

theorem shows_iff {withBase : Bool} {e : Entry} {part : Str} :
    e.Shows escape withBase part ↔ e.taken escape withBase = part := by
  cases withBase with
  | true => exact eq_comm
  | false => exact showsBehind_iff

/-- An entry is printed legibly when its path is printed as it is, has no space that is
lost, and stands behind the first arrow of its line. -/
def Legible (escape : CodePoint → Str) (withBase : Bool) (e : Entry) : Prop :=
  (∀ c ∈ e.path, isVerbatim c = true) ∧
    if withBase then strip e.path = e.path
    else codePoint ' ' ∉ e.path ∧ ∀ old ∈ e.oldPath, ¬arrow <:+: shown escape true old

theorem statusPath_statusLine (hescape : Escaping escape) (e : Entry) :
    statusPath (e.statusLine escape) = some (e.taken escape false) := by
  have htrim := statusText_trimmed hescape e
  have hlength : 3 < (e.statusLine escape).length := by
    have hpos := List.length_pos_iff.mpr htrim.1
    simp only [Entry.statusLine, List.length_cons]
    omega
  have hdrop : (e.statusLine escape).drop 3 = e.statusText escape := rfl
  rw [statusPath, if_pos hlength, hdrop, htrim.strip_eq]
  exact if_neg htrim.1

theorem shown_of_verbatim {spaces : Bool} {path : Str} (h : ∀ c ∈ path, isVerbatim c = true)
    (hspace : spaces = true → codePoint ' ' ∉ path) : shown escape spaces path = path := by
  unfold shown
  rw [if_pos]
  rw [Bool.and_eq_true, List.all_eq_true, Bool.not_eq_true', Bool.and_eq_false_iff]
  refine ⟨h, ?_⟩
  cases spaces with
  | false => exact Or.inl rfl
  | true => exact Or.inr (Bool.eq_false_iff.mpr fun hmem => hspace rfl (List.contains_iff_mem.mp hmem))

/-- A printed path does not end in the start of an arrow. -/
theorem shown_end (path : Str) :
    ¬lit " ->" <:+ shown escape true path := by
  intro h
  rcases shown_cases escape true path with ⟨heq, -, hspace⟩ | heq
  · rw [heq] at h
    exact hspace rfl (h.subset List.mem_cons_self)
  · rw [heq, quoted, ← List.cons_append] at h
    have hlast := (List.suffix_append (lit " -") (lit ">")).trans h
    have hend : lit ">" = [codePoint '"'] :=
      List.IsSuffix.eq_of_length_le
        (List.suffix_of_suffix_length_le hlast (List.suffix_append _ _) le_rfl) le_rfl
    exact absurd hend (by decide)

/-- A legible entry is taken for its path. -/
theorem taken_of_legible (hescape : Escaping escape) {withBase : Bool} {e : Entry}
    (h : Legible escape withBase e) : e.taken escape withBase = e.path := by
  obtain ⟨hverbatim, hrest⟩ := h
  cases withBase with
  | true =>
    show strip (e.diffLine escape) = e.path
    rw [Entry.diffLine, shown_of_verbatim hverbatim (fun hfalse => by cases hfalse)]
    exact hrest
  | false =>
    obtain ⟨hspace, hold⟩ : codePoint ' ' ∉ e.path ∧
      ∀ old ∈ e.oldPath, ¬arrow <:+: shown escape true old := hrest
    have hshown := @shown_of_verbatim escape true e.path hverbatim fun _ => hspace
    have htrim := shown_trimmed hescape e.path_ne
    rw [hshown] at htrim
    show behindArrow (e.statusText escape) = e.path
    unfold Entry.statusText behindArrow
    cases holdPath : e.oldPath with
    | none =>
      have harrow : ¬arrow <:+: e.path := fun harrow => hspace (harrow.subset List.mem_cons_self)
      dsimp only
      rw [hshown, renameTarget_eq_none harrow]
    | some old =>
      dsimp only
      rw [List.append_assoc, renameTarget_append (hold old holdPath) (shown_end old), hshown]
      exact htrim.strip_eq

end Taken

/-! ## Listings -/

/-- Git answers the command that decides with a text: the status, or the three-dot
diff, or the two-dot diff when that one fails. -/
def Answers (run : CommandRunner) (root : Str) (base : Option Str) (text : Str) : Prop :=
  match givenBase base with
  | some base =>
    run (threeDotDiff root base) 30 = ⟨true, text⟩ ∨
      ((run (threeDotDiff root base) 30).ok = false ∧
        run (twoDotDiff root base) 30 = ⟨true, text⟩)
  | none => run (statusCommand root) 30 = ⟨true, text⟩

section Listings

variable {escape : CodePoint → Str} {run : CommandRunner} {root : Str} {base : Option Str}
  {entries : List Entry}

theorem changedFiles_diff {b text : Str} (hbase : givenBase base = some b)
    (h : Answers run root base text) :
    changedFiles run root base = (splitlines text).filterMap diffPath := by
  unfold Answers at h
  unfold changedFiles
  rw [hbase] at h ⊢
  dsimp only at h ⊢
  rcases h with hfirst | ⟨hfail, hsecond⟩
  · rw [hfirst]
    rfl
  · rw [hfail, hsecond]
    rfl

theorem changedFiles_status {text : Str} (hbase : givenBase base = none)
    (h : Answers run root base text) :
    changedFiles run root base = (splitlines text).filterMap statusPath := by
  unfold Answers at h
  unfold changedFiles
  rw [hbase] at h ⊢
  dsimp only at h ⊢
  rw [h]
  rfl

/-- The changed files with a kind are what the entries are taken for. -/
theorem mem_changedFiles_iff (hescape : Escaping escape)
    (hgit : Answers run root base (listing escape (givenBase base).isSome entries)) {path : Str}
    (hclass : classifyContractPath path ≠ none) :
    path ∈ changedFiles run root base ↔
      ∃ e ∈ entries, e.taken escape (givenBase base).isSome = path := by
  cases hbase : givenBase base with
  | none =>
    rw [changedFiles_status hbase hgit, splitlines_listing hescape, hbase, List.mem_filterMap]
    constructor
    · rintro ⟨line, hline, hpath⟩
      obtain ⟨e, he, rfl⟩ := List.mem_map.mp hline
      refine ⟨e, he, ?_⟩
      exact Option.some.inj ((statusPath_statusLine hescape e).symm.trans hpath)
    · rintro ⟨e, he, rfl⟩
      exact ⟨_, List.mem_map_of_mem he, statusPath_statusLine hescape e⟩
  | some b =>
    have hne : path ≠ [] := by
      rintro rfl
      exact hclass (by decide +kernel)
    rw [changedFiles_diff hbase hgit, splitlines_listing hescape, hbase, List.mem_filterMap]
    simp only [Option.isSome_some, if_true]
    constructor
    · rintro ⟨line, hline, hpath⟩
      obtain ⟨e, he, rfl⟩ := List.mem_map.mp hline
      refine ⟨e, he, ?_⟩
      unfold diffPath at hpath
      split_ifs at hpath with hempty
      exact Option.some.inj hpath
    · rintro ⟨e, he, rfl⟩
      exact ⟨_, List.mem_map_of_mem he, if_neg hne⟩

/-- Every entry that is not printed legibly has a path without a kind, or one that some
line shows, and its line shows a text without a kind, or a path that has changed. -/
def Harmless (escape : CodePoint → Str) (withBase : Bool) (entries : List Entry) : Prop :=
  ∀ e ∈ entries, ¬Legible escape withBase e →
    (classifyContractPath e.path ≠ none →
      ∃ other ∈ entries, other.Shows escape withBase e.path) ∧
    ∀ part, e.Shows escape withBase part → classifyContractPath part ≠ none →
      ∃ other ∈ entries, other.path = part

/-- The changes reported are those of the paths that git lists exactly when the
entries that are not printed legibly do no harm. -/
theorem exact_iff_harmless (hescape : Escaping escape)
    (hgit : Answers run root base (listing escape (givenBase base).isSome entries)) :
    Exact (contractChanges run root base) (entries.map Entry.path) ↔
      Harmless escape (givenBase base).isSome entries := by
  rw [exact_contractChanges_iff]
  constructor
  · intro h e he _
    refine ⟨fun hclass => ?_, fun part hpart hclass => ?_⟩
    · obtain ⟨other, hother, htaken⟩ := (mem_changedFiles_iff hescape hgit hclass).mp
        ((h e.path hclass).mpr (List.mem_map_of_mem he))
      exact ⟨other, hother, shows_iff.mpr htaken⟩
    · have htaken := shows_iff.mp hpart
      exact List.mem_map.mp ((h part hclass).mp
        ((mem_changedFiles_iff hescape hgit hclass).mpr ⟨e, he, htaken⟩))
  · intro h path hclass
    rw [mem_changedFiles_iff hescape hgit hclass, List.mem_map]
    constructor
    · rintro ⟨e, he, rfl⟩
      by_cases hlegible : Legible escape (givenBase base).isSome e
      · exact ⟨e, he, (taken_of_legible hescape hlegible).symm⟩
      · exact (h e he hlegible).2 _ (shows_iff.mpr rfl) hclass
    · rintro ⟨e, he, rfl⟩
      by_cases hlegible : Legible escape (givenBase base).isSome e
      · exact ⟨e, he, taken_of_legible hescape hlegible⟩
      · obtain ⟨other, hother, hshows⟩ := (h e he hlegible).1 hclass
        exact ⟨other, hother, shows_iff.mp hshows⟩

end Listings

end DevRepro.Project
