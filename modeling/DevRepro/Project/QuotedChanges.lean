import DevRepro.Project.ContractChanges

/-!
# Quoted contract files

What `contract_changes` makes of a listing in which no arrow is mistaken: with a base,
or where no name holds one.

A quoted path is then taken for its quoted form, and a text in double quotes has a
kind only when a name in it starts with `Dockerfile.` (`quoted_kind_iff`), the one
pattern with a star at its end.  `exact_iff_of_arrowFree` reads off the names when the
changes reported are exact, and `changes_exact_iff` puts the two kinds of listings
together.
-/

namespace DevRepro.Project

open DevRepro.Python DevRepro.Lib

/-! ## Texts in double quotes -/

/-- A pattern whose last character is neither a wildcard nor a quote. -/
def endsPlainly (pattern : Str) : Bool :=
  pattern.getLast?.any fun p =>
    p != codePoint '*' && p != codePoint '?' && p != codePoint '"'

/-- One pattern of the table has a star at its end. -/
theorem table_ends : recursivePatterns.all (fun q =>
      q == lit "Dockerfile.*" || endsPlainly q) = true ∧
    bareNames.all endsPlainly = true ∧ workflowPatterns.all endsPlainly = true := by
  decide +kernel

/-- A text that matches a pattern of that kind does not end with a quote. -/
theorem endsPlainly_match {s pattern : Str} (hpattern : endsPlainly pattern = true)
    (h : fnmatch s pattern = true) : ∃ p, p ≠ codePoint '"' ∧ s.getLast? = some p := by
  unfold endsPlainly at hpattern
  cases hend : pattern.getLast? with
  | none =>
    rw [hend] at hpattern
    cases hpattern
  | some p =>
    rw [hend, Option.any_some, Bool.and_eq_true, Bool.and_eq_true, bne_iff_ne, bne_iff_ne,
      bne_iff_ne] at hpattern
    exact ⟨p, hpattern.2, fnmatch_getLast hend hpattern.1.1 hpattern.1.2 h⟩

/-- A name in the text starts with `Dockerfile.`, behind a slash or a backslash. -/
def HoldsDockerfile (s : Str) : Prop :=
  ∃ sep, (sep = codePoint '/' ∨ sep = codePoint '\\') ∧ sep :: lit "Dockerfile." <:+: s

theorem holdsDockerfile_iff {s : Str} :
    HoldsDockerfile s ↔ lit "/Dockerfile." <:+: asSlashes s := by
  have hname : asSlashes (lit "Dockerfile.") = lit "Dockerfile." := by decide
  constructor
  · rintro ⟨sep, hsep, hinner⟩
    have hmap := hinner.map fun c => if c = codePoint '\\' then codePoint '/' else c
    have hslashes : asSlashes (sep :: lit "Dockerfile.") = lit "/Dockerfile." := by
      rcases hsep with rfl | rfl <;> decide
    rw [← hslashes]
    exact hmap
  · intro h
    obtain ⟨part, hpart, heq⟩ := List.infix_map_iff.mp h
    obtain ⟨sep, rest, rfl, hsep, hrest⟩ := List.map_eq_cons_iff.mp heq.symm
    have hself : rest = lit "Dockerfile." := by
      have hback : codePoint '\\' ∉ rest := by
        intro hmem
        have hslash : codePoint '/' ∈ lit "Dockerfile." := by
          rw [← show _ = lit "Dockerfile." from hrest]
          exact List.mem_map.mpr ⟨_, hmem, if_pos rfl⟩
        exact absurd hslash (by decide)
      rw [← asSlashes_of_no_backslash hback]
      exact hrest
    refine ⟨sep, ?_, hself ▸ hpart⟩
    by_cases hsepBack : sep = codePoint '\\'
    · exact Or.inr hsepBack
    · rw [if_neg hsepBack] at hsep
      exact Or.inl hsep

section Quoted

variable {escape : CodePoint → Str} {path : Str}

/-- A quoted path has no `./` in front, and ends with its quote. -/
theorem normalised_quoted (path : Str) :
    normalised (quoted escape path) = asSlashes (quoted escape path) ∧
      (asSlashes (quoted escape path)).head? = some (codePoint '"') ∧
        (asSlashes (quoted escape path)).getLast? = some (codePoint '"') := by
  have hhead : asSlashes (quoted escape path) =
      codePoint '"' :: (asSlashes (path.flatMap escape) ++ [codePoint '"']) := by
    rw [quoted, asSlashes, List.map_cons, List.map_append]
    rfl
  refine ⟨?_, ?_, ?_⟩
  · unfold normalised removePrefix
    rw [hhead]
    rfl
  · rw [hhead]
    rfl
  · rw [hhead, ← List.cons_append, List.getLast?_append]
    rfl

/-- What holds of the quoted form of a path holds of the quoted form of that. -/
theorem HoldsDockerfile.quote (hescape : Escaping escape) (h : HoldsDockerfile path) :
    HoldsDockerfile (quoted escape path) := by
  obtain ⟨sep, hsep, before, after, rfl⟩ := h
  have hverbatim : (lit "Dockerfile.").all isVerbatim = true := by decide
  have hname : (lit "Dockerfile.").flatMap escape = lit "Dockerfile." := by
    rw [List.flatMap_congr fun c hc => hescape.verbatim c (List.all_eq_true.mp hverbatim c hc)]
    exact List.flatMap_singleton' _
  obtain ⟨first, hfirst⟩ : ∃ first, escape sep = first ++ [sep] := by
    rcases hsep with rfl | rfl
    · exact ⟨[], hescape.verbatim _ (by decide)⟩
    · exact ⟨[codePoint '\\'], hescape.backslash⟩
  refine ⟨sep, hsep, codePoint '"' :: (before.flatMap escape ++ first),
    after.flatMap escape ++ [codePoint '"'], ?_⟩
  simp only [quoted, List.flatMap_append, List.flatMap_cons, hname, hfirst, List.append_assoc,
    List.cons_append, List.nil_append]

/-- A quoted path has a kind when a name in it starts with `Dockerfile.`. -/
theorem quoted_kind_iff :
    classifyContractPath (quoted escape path) ≠ none ↔ HoldsDockerfile (quoted escape path) := by
  obtain ⟨hnormal, hhead, hlast⟩ := @normalised_quoted escape path
  rw [classifyContractPath_iff, hnormal, holdsDockerfile_iff]
  generalize asSlashes (quoted escape path) = text at hhead hlast
  have hrecursive : lit "Dockerfile.*" ∈ recursivePatterns :=
    (spanning_forms _ (List.mem_cons_of_mem _ List.mem_cons_self)).1
  have hdocker : Plainly (lit "Dockerfile.") := (isPlainName_iff.mp (by decide +kernel)).1
  have hends : ∀ s ∈ starts text, ∀ pattern, endsPlainly pattern = true →
      fnmatch s pattern ≠ true := by
    intro s hs pattern hpattern hmatch
    obtain ⟨p, hp, hsLast⟩ := endsPlainly_match hpattern hmatch
    rw [getLast?_of_suffix (suffix_of_mem_starts hs) hsLast] at hlast
    exact hp (Option.some.inj hlast)
  have hbelow : ∀ s ∈ starts text, fnmatch s "Dockerfile.*" = true →
      lit "/Dockerfile." <:+: text := by
    intro s hs hmatch
    obtain ⟨rest, rfl, -⟩ := @fnmatch_append_plain _ (lit "*") s hdocker hmatch
    rcases mem_starts_iff.mp hs with heq | hsuffix
    · rw [← heq] at hhead
      cases hhead
    · exact (List.prefix_append (lit "/Dockerfile.") rest).isInfix.trans hsuffix.isInfix
  constructor
  · rintro (⟨q, hq, hmatch⟩ | hbare | ⟨w, hw, hmatch⟩)
    · obtain ⟨s, hs, hmatch⟩ : ∃ s ∈ starts text, fnmatch s q = true := by
        rcases hmatch with ⟨s, hs, hmatch⟩ | hmatch
        · exact ⟨s, List.mem_cons_of_mem _ hs, hmatch⟩
        · exact ⟨_, lastComponent_mem_starts _, hmatch⟩
      have hform := List.all_eq_true.mp table_ends.1 q hq
      rw [Bool.or_eq_true, beq_iff_eq] at hform
      rcases hform with rfl | hplain
      · exact hbelow s hs hmatch
      · exact absurd hmatch (hends s hs q hplain)
    · exact absurd ((fnmatch_bare_iff hbare).mpr rfl) (hends _ (lastComponent_mem_starts _) _
        (List.all_eq_true.mp table_ends.2.1 _ hbare))
    · exact absurd hmatch (hends text List.mem_cons_self w
        (List.all_eq_true.mp table_ends.2.2 w hw))
  · rintro ⟨before, after, rfl⟩
    refine Or.inl ⟨lit "Dockerfile.*", hrecursive, Or.inl ⟨lit "Dockerfile." ++ after, ?_, ?_⟩⟩
    · exact mem_afterSlash_iff.mpr ⟨before, by simp [lit]⟩
    · exact fnmatch_append hdocker (fnmatch_star_iff.mpr ⟨[], List.nil_suffix, rfl⟩)

theorem length_quoted (hescape : Escaping escape) (path : Str) :
    path.length < (quoted escape path).length := by
  have hflat : path.length ≤ (path.flatMap escape).length := by
    induction path with
    | nil => exact le_rfl
    | cons c path ih =>
      have hpos := List.length_pos_iff.mpr (hescape.nonempty c)
      rw [List.flatMap_cons, List.length_append, List.length_cons]
      omega
  rw [quoted, List.length_cons, List.length_append, List.length_singleton]
  omega

theorem shown_quoted (spaces : Bool) (path : Str) :
    shown escape spaces (quoted escape path) = quoted escape (quoted escape path) := by
  refine if_neg fun h => ?_
  rw [Bool.and_eq_true, List.all_eq_true] at h
  exact absurd (h.1 (codePoint '"') List.mem_cons_self) (by decide)

theorem quoted_ne (hescape : Escaping escape) (path : Str) : quoted escape path ≠ path :=
  fun heq => absurd (congrArg List.length heq) (length_quoted hescape path).ne'

/-- What is left of an unquoted path is not quoted. -/
theorem shown_strip (hescape : Escaping escape) {spaces : Bool}
    (h : shown escape spaces path = path) : shown escape spaces (strip path) = strip path := by
  have hpart : strip path ⊆ path := (stripChars_within path).subset
  rcases shown_cases escape spaces path with ⟨-, hverbatim, hspace⟩ | heq
  · exact shown_of_verbatim (fun c hc => hverbatim c (hpart hc))
      fun hspaces hmem => hspace hspaces (hpart hmem)
  · exact absurd (heq.symm.trans h) (quoted_ne hescape path)

end Quoted

/-! ## Listings without arrows -/

/-- No arrow in the listing is mistaken for the one of a rename. -/
def ArrowFree (escape : CodePoint → Str) (withBase : Bool) (entries : List Entry) : Prop :=
  withBase = true ∨ ∀ e ∈ entries, ¬arrow <:+: shown escape true e.path ∧
    ∀ old ∈ e.oldPath, ¬arrow <:+: shown escape true old

section ArrowFree

variable {escape : CodePoint → Str} {run : CommandRunner} {root : Str} {base : Option Str}
  {withBase : Bool} {entries : List Entry}

theorem taken_of_arrowFree (hescape : Escaping escape) (h : ArrowFree escape withBase entries)
    {e : Entry} (he : e ∈ entries) :
    e.taken escape withBase = strip (shown escape (!withBase) e.path) := by
  cases withBase with
  | true => rfl
  | false =>
    obtain ⟨hpath, hold⟩ := h.resolve_left Bool.false_ne_true e he
    have htrim := shown_trimmed hescape e.path_ne
    show behindArrow (e.statusText escape) = strip (shown escape true e.path)
    unfold Entry.statusText behindArrow
    cases holdPath : e.oldPath with
    | none =>
      dsimp only
      rw [renameTarget_eq_none hpath, htrim.strip_eq]
    | some old =>
      dsimp only
      rw [List.append_assoc, renameTarget_append (hold old holdPath) (shown_end old)]

/-- A list with an element of a kind that each calls for a larger one has none. -/
theorem none_of_grows {α : Type} {l : List α} {P : α → Prop} {size : α → Nat} {next : α → α}
    (hnext : ∀ a ∈ l, P a → next a ∈ l ∧ P (next a)) (hsize : ∀ a, size a < size (next a)) :
    ∀ a ∈ l, ¬P a := by
  classical
  intro a ha hP
  obtain ⟨top, htop, hmax⟩ := Multiset.exists_max_image size
    (s := ((l.filter fun a => P a : List α) : Multiset α))
    (fun hempty => by
      have hmem : a ∈ l.filter fun a => P a := List.mem_filter.mpr ⟨ha, decide_eq_true hP⟩
      rw [← Multiset.mem_coe, hempty] at hmem
      exact absurd hmem (Multiset.notMem_zero a))
  obtain ⟨htop, hPtop⟩ := List.mem_filter.mp (Multiset.mem_coe.mp htop)
  obtain ⟨hmem, hPnext⟩ := hnext top htop (of_decide_eq_true hPtop)
  have hle := hmax (next top)
    (Multiset.mem_coe.mpr (List.mem_filter.mpr ⟨hmem, decide_eq_true hPnext⟩))
  exact absurd (hsize top) (Nat.not_lt.mpr hle)

/-- The names of a listing do no harm: a path that is quoted has no kind and no name
that starts with `Dockerfile.`; a path of a kind that is not quoted has no space at its
ends, and what is left of a path without those has no kind or has changed too. -/
def CleanNames (escape : CodePoint → Str) (withBase : Bool) (paths : List Str) : Prop :=
  ∀ path ∈ paths,
    if shown escape (!withBase) path = path then
      (classifyContractPath path ≠ none → strip path = path) ∧
        (classifyContractPath (strip path) ≠ none → strip path ∈ paths)
    else classifyContractPath path = none ∧ ¬HoldsDockerfile (quoted escape path)

theorem shown_eq_quoted {spaces : Bool} {path : Str} (h : shown escape spaces path ≠ path) :
    shown escape spaces path = quoted escape path := by
  rcases shown_cases escape spaces path with ⟨heq, -, -⟩ | heq
  · exact absurd heq h
  · exact heq

/-- The path stands in a listing, without the spaces at its ends. -/
def StandsIn (escape : CodePoint → Str) (spaces : Bool) (paths : List Str) (path : Str) : Prop :=
  ∃ p ∈ paths, strip (shown escape spaces p) = path

section Names

variable {spaces : Bool} {paths : List Str}

/-- Where nothing but a changed path is reported, no quoted path has a name that starts
with `Dockerfile.`: its quoted form would be reported, and so on with that one. -/
theorem no_quoted_dockerfile (hescape : Escaping escape)
    (h : ∀ path, classifyContractPath path ≠ none → StandsIn escape spaces paths path →
      path ∈ paths) :
    ∀ p ∈ paths, ¬(shown escape spaces p ≠ p ∧ HoldsDockerfile (quoted escape p)) := by
  refine none_of_grows (fun p hp hP => ⟨?_, ?_, hP.2.quote hescape⟩) (length_quoted hescape)
  · refine h _ (quoted_kind_iff.mpr hP.2) ⟨p, hp, ?_⟩
    rw [shown_eq_quoted hP.1, (quoted_trimmed p).strip_eq]
  · rw [shown_quoted]
    exact quoted_ne hescape _

/-- A quoted path of a kind does not stand in the listing, unless it is the quoted form
of another one. -/
theorem standsIn_quoted (hescape : Escaping escape) {path : Str}
    (hpath : shown escape spaces path ≠ path) (h : StandsIn escape spaces paths path) :
    ∃ p ∈ paths, shown escape spaces p ≠ p ∧ quoted escape p = path := by
  obtain ⟨p, hp, rfl⟩ := h
  by_cases hself : shown escape spaces p = p
  · rw [hself] at hpath
    exact absurd (shown_strip hescape hself) hpath
  · refine ⟨p, hp, hself, ?_⟩
    rw [shown_eq_quoted hself, (quoted_trimmed p).strip_eq]

/-- The paths of a kind that stand in a listing are those that have changed exactly
when the names are clean. -/
theorem standsIn_iff_cleanNames (hescape : Escaping escape) :
    (∀ path, classifyContractPath path ≠ none →
      (StandsIn escape (!withBase) paths path ↔ path ∈ paths)) ↔
        CleanNames escape withBase paths := by
  constructor
  · intro h
    have hnone := no_quoted_dockerfile hescape fun path hclass => (h path hclass).mp
    intro p hp
    split_ifs with hself
    · refine ⟨fun hclass => ?_, fun hclass => (h _ hclass).mp ⟨p, hp, by rw [hself]⟩⟩
      obtain ⟨q, -, rfl⟩ := (h p hclass).mpr hp
      exact stripChars_idem _
    · refine ⟨?_, fun hdocker => hnone p hp ⟨hself, hdocker⟩⟩
      by_contra hclass
      obtain ⟨q, hq, hqself, rfl⟩ := standsIn_quoted hescape hself ((h p hclass).mpr hp)
      exact hnone q hq ⟨hqself, quoted_kind_iff.mp hclass⟩
  · intro h path hclass
    constructor
    · rintro ⟨p, hp, rfl⟩
      have hclean := h p hp
      split_ifs at hclean with hself
      · rw [hself] at hclass ⊢
        exact hclean.2 hclass
      · rw [shown_eq_quoted hself, (quoted_trimmed p).strip_eq] at hclass
        exact absurd (quoted_kind_iff.mp hclass) hclean.2
    · intro hp
      have hclean := h path hp
      split_ifs at hclean with hself
      · exact ⟨path, hp, by rw [hself, hclean.1 hclass]⟩
      · exact absurd hclean.1 hclass

end Names

/-- Where no arrow is mistaken, the changed files of a kind are the paths that stand in
the listing. -/
theorem mem_changedFiles_arrowFree (hescape : Escaping escape)
    (hgit : Answers run root base (listing escape (givenBase base).isSome entries))
    (hfree : ArrowFree escape (givenBase base).isSome entries) {path : Str}
    (hclass : classifyContractPath path ≠ none) :
    path ∈ changedFiles run root base ↔
      StandsIn escape (!(givenBase base).isSome) (entries.map Entry.path) path := by
  rw [mem_changedFiles_iff hescape hgit hclass, StandsIn]
  simp only [List.mem_map, exists_exists_and_eq_and]
  refine exists_congr fun e => and_congr_right fun he => ?_
  rw [taken_of_arrowFree hescape hfree he]

/-- Where no arrow is mistaken, the changes reported are exact when the names are
clean. -/
theorem exact_iff_of_arrowFree (hescape : Escaping escape)
    (hgit : Answers run root base (listing escape (givenBase base).isSome entries))
    (hfree : ArrowFree escape (givenBase base).isSome entries) :
    Exact (contractChanges run root base) (entries.map Entry.path) ↔
      CleanNames escape (givenBase base).isSome (entries.map Entry.path) := by
  rw [exact_contractChanges_iff, ← standsIn_iff_cleanNames hescape]
  refine forall_congr' fun path => forall_congr' fun hclass => ?_
  rw [mem_changedFiles_arrowFree hescape hgit hfree hclass]

/-- What a listing needs: clean names where no arrow is mistaken, and elsewhere that
the entries that are not printed legibly do no harm. -/
def ReadsBack (escape : CodePoint → Str) (withBase : Bool) (entries : List Entry) : Prop :=
  (ArrowFree escape withBase entries ∧ CleanNames escape withBase (entries.map Entry.path)) ∨
    (¬ArrowFree escape withBase entries ∧ Harmless escape withBase entries)

/-- The changes reported are those of the paths that git lists exactly when the
listing can be read back. -/
theorem changes_exact_iff (hescape : Escaping escape)
    (hgit : Answers run root base (listing escape (givenBase base).isSome entries)) :
    Exact (contractChanges run root base) (entries.map Entry.path) ↔
      ReadsBack escape (givenBase base).isSome entries := by
  unfold ReadsBack
  by_cases hfree : ArrowFree escape (givenBase base).isSome entries
  · rw [exact_iff_of_arrowFree hescape hgit hfree]
    simp [hfree]
  · rw [exact_iff_harmless hescape hgit]
    simp [hfree]

end ArrowFree

/-- A file that was modified. -/
def modifiedEntry (path : Str) (hne : path ≠ []) : Entry where
  index := .unmodified
  worktree := .modified
  path := path
  oldPath := none
  path_ne := hne
  oldPath_ne old hold := by cases hold

/-- Git, where these entries have changed. -/
def gitOn (withBase : Bool) (entries : List Entry) : CommandRunner :=
  fun _ _ => ⟨true, listing cEscape withBase entries⟩

def serviceManifest : Entry := modifiedEntry "services/api/package.json" (by decide)

/-- A manifest is reported by a status that lists it. -/
theorem changes_exact_manifest :
    Exact (contractChanges (gitOn false [serviceManifest]) "." none)
      [lit "services/api/package.json"] := by
  have hgit : Answers (gitOn false [serviceManifest]) "." none
      (listing cEscape (givenBase none).isSome [serviceManifest]) := rfl
  obtain ⟨hshown, hstrip, harrow⟩ :
      shown cEscape true serviceManifest.path = serviceManifest.path ∧
        strip serviceManifest.path = serviceManifest.path ∧
          renameTarget serviceManifest.path = none := by
    decide +kernel
  refine (changes_exact_iff cEscape_escaping hgit).mpr (Or.inl ⟨Or.inr fun e he => ?_, ?_⟩)
  · rw [List.mem_singleton.mp he, hshown]
    exact ⟨no_arrow_of_renameTarget harrow, fun old hold => by cases hold⟩
  · intro path hpath
    rw [List.mem_singleton.mp hpath]
    refine (if_pos hshown).mpr ⟨fun _ => hstrip, fun _ => ?_⟩
    rw [hstrip]
    exact List.mem_singleton_self _

def escapedManifest : Entry := modifiedEntry "caf\u00e9/package.json" (by decide)

/-- A manifest in a directory with a letter that git escapes is missed, with a base
and without one. -/
theorem quoted_manifest_missed :
    ¬Exact (contractChanges (gitOn true [escapedManifest]) "." (some "main"))
        [escapedManifest.path] ∧
      ¬Exact (contractChanges (gitOn false [escapedManifest]) "." none) [escapedManifest.path] := by
  have hmissed : contractChanges (gitOn true [escapedManifest]) "." (some "main") = [] ∧
      contractChanges (gitOn false [escapedManifest]) "." none = [] ∧
        classifyContractPath escapedManifest.path ≠ none := by
    decide +kernel
  obtain ⟨hbase, hstatus, hkind⟩ := hmissed
  rw [hbase, hstatus]
  exact ⟨not_exact_nil hkind, not_exact_nil hkind⟩

end DevRepro.Project
