import DevRepro.Python.Text

/-!
# Glob patterns and paths

`fnmatch.fnmatch` on a POSIX system, where a star also matches a slash, and the
tails of a path that start at a name.

`fnmatch_recursive_iff` is what `**/` means there: the pattern behind it matches
what stands after some slash.
-/

namespace DevRepro.Python

/-! ## Matching -/

/-- `fnmatch.fnmatch`.  Character sets are left out: no pattern of the program has
one. -/
def fnmatch (name : Str) : Str → Bool
  | [] => name.isEmpty
  | p :: pattern =>
    if p = codePoint '*' then name.tails.any fun tail => fnmatch tail pattern
    else
      match name with
      | [] => false
      | c :: rest => (p = codePoint '?' || c = p) && fnmatch rest pattern

theorem fnmatch_nil_cons {p : CodePoint} {pattern : Str} (h : p ≠ codePoint '*') :
    fnmatch [] (p :: pattern) = false := by
  rw [fnmatch.eq_def]
  dsimp only
  rw [if_neg h]

theorem fnmatch_cons_cons {p c : CodePoint} {pattern rest : Str} (h : p ≠ codePoint '*') :
    fnmatch (c :: rest) (p :: pattern) = true ↔
      (p = codePoint '?' ∨ c = p) ∧ fnmatch rest pattern = true := by
  rw [fnmatch.eq_def]
  dsimp only
  rw [if_neg h, Bool.and_eq_true, Bool.or_eq_true, decide_eq_true_eq, decide_eq_true_eq]

/-- A pattern without wildcards. -/
def Plainly (pattern : Str) : Prop := ∀ p ∈ pattern, p ≠ codePoint '*' ∧ p ≠ codePoint '?'

instance (pattern : Str) : Decidable (Plainly pattern) :=
  inferInstanceAs (Decidable (∀ p ∈ pattern, _))

theorem fnmatch_star_iff {name pattern : Str} :
    fnmatch name (codePoint '*' :: pattern) = true ↔
      ∃ tail, tail <:+ name ∧ fnmatch tail pattern = true := by
  rw [fnmatch.eq_def]
  dsimp only
  rw [if_pos rfl, List.any_eq_true]
  simp only [List.mem_tails]

/-- A plain pattern matches itself. -/
theorem fnmatch_plain_iff {pattern : Str} (h : Plainly pattern) {name : Str} :
    fnmatch name pattern = true ↔ name = pattern := by
  induction pattern generalizing name with
  | nil => simp [fnmatch]
  | cons p pattern ih =>
    obtain ⟨hp, hrest⟩ := List.forall_mem_cons.mp h
    cases name with
    | nil => simp [fnmatch_nil_cons hp.1]
    | cons c rest =>
      rw [fnmatch_cons_cons hp.1, ih hrest]
      simp [hp.2]

theorem fnmatch_cons_plain {p c : CodePoint} {pattern name : Str} (hstar : p ≠ codePoint '*')
    (hany : p ≠ codePoint '?') (h : fnmatch (c :: name) (p :: pattern) = true) : c = p := by
  exact ((fnmatch_cons_cons hstar).mp h).1.resolve_left hany

/-- A pattern that starts without wildcards matches a text that starts so. -/
theorem fnmatch_append_plain {first pattern name : Str} (hfirst : Plainly first)
    (h : fnmatch name (first ++ pattern) = true) :
    ∃ rest, name = first ++ rest ∧ fnmatch rest pattern = true := by
  induction first generalizing name with
  | nil => exact ⟨name, rfl, h⟩
  | cons p first ih =>
    obtain ⟨⟨hstar, hany⟩, hrest⟩ := List.forall_mem_cons.mp hfirst
    cases name with
    | nil =>
      rw [List.cons_append, fnmatch_nil_cons hstar] at h
      cases h
    | cons c name =>
      obtain rfl := fnmatch_cons_plain hstar hany h
      obtain ⟨rest, rfl, hmatch⟩ := ih hrest ((fnmatch_cons_cons hstar).mp h).2
      exact ⟨rest, rfl, hmatch⟩

theorem fnmatch_append {first pattern name : Str} (hfirst : Plainly first)
    (h : fnmatch name pattern = true) : fnmatch (first ++ name) (first ++ pattern) = true := by
  induction first with
  | nil => exact h
  | cons p first ih =>
    obtain ⟨⟨hstar, -⟩, hrest⟩ := List.forall_mem_cons.mp hfirst
    exact (fnmatch_cons_cons hstar).mpr ⟨Or.inr rfl, ih hrest⟩

theorem getLast?_of_suffix {p : CodePoint} {tail name : Str} (htail : tail <:+ name)
    (hlast : tail.getLast? = some p) : name.getLast? = some p := by
  obtain ⟨before, rfl⟩ := htail
  rw [List.getLast?_append, hlast]
  rfl

/-- A pattern that ends with a character matches texts that end with it. -/
theorem fnmatch_getLast {p : CodePoint} {name pattern : Str} (hlast : pattern.getLast? = some p)
    (hstar : p ≠ codePoint '*') (hany : p ≠ codePoint '?') (h : fnmatch name pattern = true) :
    name.getLast? = some p := by
  induction pattern generalizing name with
  | nil => cases hlast
  | cons q pattern ih =>
    by_cases hq : q = codePoint '*'
    · subst hq
      cases pattern with
      | nil =>
        cases hlast
        exact absurd rfl hstar
      | cons r pattern =>
        rw [List.getLast?_cons_cons] at hlast
        obtain ⟨tail, htail, hmatch⟩ := fnmatch_star_iff.mp h
        exact getLast?_of_suffix htail (ih hlast hmatch)
    · cases name with
      | nil =>
        rw [fnmatch_nil_cons hq] at h
        cases h
      | cons c name =>
        obtain ⟨hc, hmatch⟩ := (fnmatch_cons_cons hq).mp h
        cases pattern with
        | nil =>
          cases hlast
          rw [fnmatch, List.isEmpty_iff] at hmatch
          rw [hmatch, hc.resolve_left hany]
          rfl
        | cons r pattern =>
          rw [List.getLast?_cons_cons] at hlast
          have hname := ih hlast hmatch
          rw [List.getLast?_cons, hname]
          rfl

/-- What a pattern spells out is in every text it matches. -/
theorem mem_of_fnmatch {c : CodePoint} {name pattern : Str} (hc : c ∈ pattern)
    (hstar : c ≠ codePoint '*') (hany : c ≠ codePoint '?') (h : fnmatch name pattern = true) :
    c ∈ name := by
  induction pattern generalizing name with
  | nil => cases hc
  | cons p pattern ih =>
    by_cases hp : p = codePoint '*'
    · rw [hp] at h hc
      obtain ⟨tail, htail, hmatch⟩ := fnmatch_star_iff.mp h
      exact htail.subset (ih ((List.mem_cons.mp hc).resolve_left hstar) hmatch)
    · cases name with
      | nil =>
        rw [fnmatch_nil_cons hp] at h
        cases h
      | cons d name =>
        obtain ⟨hd, hmatch⟩ := (fnmatch_cons_cons hp).mp h
        rcases List.mem_cons.mp hc with rfl | hc
        · rw [hd.resolve_left hany]
          exact List.mem_cons_self
        · exact List.mem_cons_of_mem _ (ih hc hmatch)

/-- A change of characters that a pattern does not name keeps its matches. -/
theorem fnmatch_map {name pattern : Str} {change : CodePoint → CodePoint}
    (hchange : ∀ p ∈ pattern, ∀ c, c = p → change c = p) (h : fnmatch name pattern = true) :
    fnmatch (name.map change) pattern = true := by
  induction pattern generalizing name with
  | nil =>
    rw [fnmatch, List.isEmpty_iff] at h ⊢
    rw [h, List.map_nil]
  | cons p pattern ih =>
    obtain ⟨hp, hrest⟩ := List.forall_mem_cons.mp hchange
    by_cases hstar : p = codePoint '*'
    · subst hstar
      rw [fnmatch_star_iff] at h ⊢
      obtain ⟨tail, htail, hmatch⟩ := h
      exact ⟨tail.map change, htail.map change, ih hrest hmatch⟩
    · cases name with
      | nil =>
        rw [fnmatch_nil_cons hstar] at h
        cases h
      | cons c rest =>
        rw [fnmatch_cons_cons hstar] at h
        rw [List.map_cons, fnmatch_cons_cons hstar]
        exact ⟨h.1.imp_right (hp c), ih hrest h.2⟩

/-! ## The names of a path -/

/-- What stands after each slash of a path. -/
def afterSlash : Str → List Str
  | [] => []
  | c :: rest => if c = codePoint '/' then rest :: afterSlash rest else afterSlash rest

/-- The tails of a path that start at a name. -/
def starts (path : Str) : List Str := path :: afterSlash path

/-- `path.rsplit("/", 1)[-1]`. -/
def lastComponent (path : Str) : Str := (afterSlash path).getLast?.getD path

theorem mem_afterSlash_iff {path tail : Str} :
    tail ∈ afterSlash path ↔ codePoint '/' :: tail <:+ path := by
  induction path with
  | nil => simp [afterSlash]
  | cons c rest ih =>
    rw [afterSlash, List.suffix_cons_iff]
    split_ifs with hc
    · subst hc
      rw [List.mem_cons, ih, List.cons.injEq]
      simp
    · rw [ih]
      constructor
      · exact Or.inr
      · rintro (heq | hmem)
        · exact absurd (List.cons.inj heq).1.symm hc
        · exact hmem

theorem mem_starts_iff {path tail : Str} :
    tail ∈ starts path ↔ tail = path ∨ codePoint '/' :: tail <:+ path := by
  rw [starts, List.mem_cons, mem_afterSlash_iff]

theorem suffix_of_mem_starts {path tail : Str} (h : tail ∈ starts path) : tail <:+ path := by
  rcases mem_starts_iff.mp h with rfl | hsuffix
  · exact List.suffix_rfl
  · exact (List.suffix_cons _ _).trans hsuffix

/-- A start of a start is a start. -/
theorem starts_trans {path middle tail : Str} (h : tail ∈ starts middle)
    (hmiddle : middle ∈ starts path) : tail ∈ starts path := by
  rw [mem_starts_iff] at h hmiddle ⊢
  rcases h with rfl | h
  · exact hmiddle
  · rcases hmiddle with rfl | hmiddle
    · exact Or.inr h
    · exact Or.inr (h.trans ((List.suffix_cons _ _).trans hmiddle))

theorem afterSlash_eq_nil {path : Str} (h : codePoint '/' ∉ path) : afterSlash path = [] := by
  rw [List.eq_nil_iff_forall_not_mem]
  intro tail htail
  exact h ((mem_afterSlash_iff.mp htail).subset List.mem_cons_self)

theorem lastComponent_of_no_slash {path : Str} (h : codePoint '/' ∉ path) :
    lastComponent path = path := by
  rw [lastComponent, afterSlash_eq_nil h]
  rfl

theorem lastComponent_mem_starts (path : Str) : lastComponent path ∈ starts path := by
  rw [lastComponent, starts]
  cases h : (afterSlash path).getLast? with
  | none => exact List.mem_cons_self
  | some tail => exact List.mem_cons_of_mem _ (List.mem_of_getLast? h)

/-- Every start of a path has the path's last name. -/
theorem lastComponent_start {path tail : Str} (h : tail ∈ starts path) :
    lastComponent tail = lastComponent path := by
  induction path with
  | nil => rw [List.mem_singleton.mp h]
  | cons c rest ih =>
    rcases List.mem_cons.mp h with rfl | h
    · rfl
    · have hrest : tail ∈ starts rest := by
        rw [mem_afterSlash_iff, List.suffix_cons_iff] at h
        rw [mem_starts_iff]
        rcases h with heq | hsuffix
        · exact Or.inl (List.cons.inj heq).2
        · exact Or.inr hsuffix
      rw [ih hrest, lastComponent, lastComponent, afterSlash]
      split_ifs with hc
      · rw [List.getLast?_cons]
        rfl
      · have hne : afterSlash rest ≠ [] := by
          intro hnil
          rw [afterSlash, if_neg hc, hnil] at h
          cases h
        rw [List.getLast?_eq_getLast_of_ne_nil hne]
        rfl

/-- A start without a slash is the last name. -/
theorem eq_lastComponent {path tail : Str} (h : tail ∈ starts path)
    (hslash : codePoint '/' ∉ tail) : tail = lastComponent path := by
  rw [← lastComponent_start h, lastComponent_of_no_slash hslash]

/-- An ending without a slash is an ending of the last name. -/
theorem suffix_lastComponent {path ending : Str} (h : ending <:+ path)
    (hslash : codePoint '/' ∉ ending) : ending <:+ lastComponent path := by
  rcases mem_starts_iff.mp (lastComponent_mem_starts path) with heq | hlast
  · rw [heq]
    exact h
  · rcases List.suffix_or_suffix_of_suffix h hlast with hshort | hlong
    · rcases List.suffix_cons_iff.mp hshort with heq | hending
      · exact absurd (heq ▸ List.mem_cons_self) hslash
      · exact hending
    · exact absurd (hlong.subset List.mem_cons_self) hslash

/-- A pattern behind `**/` matches what stands after some slash. -/
theorem fnmatch_recursive_iff {path pattern : Str} :
    fnmatch path (lit "**/" ++ pattern) = true ↔
      ∃ tail ∈ afterSlash path, fnmatch tail pattern = true := by
  have hpattern : lit "**/" ++ pattern =
      codePoint '*' :: codePoint '*' :: codePoint '/' :: pattern := rfl
  have hslash : ∀ tail : Str, fnmatch tail (codePoint '/' :: pattern) = true ↔
      ∃ rest, tail = codePoint '/' :: rest ∧ fnmatch rest pattern = true := by
    intro tail
    cases tail with
    | nil => simp [fnmatch_nil_cons (show codePoint '/' ≠ codePoint '*' by decide)]
    | cons c rest =>
      rw [fnmatch_cons_cons (by decide)]
      constructor
      · rintro ⟨hc, hrest⟩
        rcases hc with hc | rfl
        · exact absurd hc (by decide)
        · exact ⟨rest, rfl, hrest⟩
      · rintro ⟨rest', heq, hrest⟩
        cases heq
        exact ⟨Or.inr rfl, hrest⟩
  rw [hpattern, fnmatch_star_iff]
  constructor
  · rintro ⟨first, hfirst, hmatch⟩
    obtain ⟨second, hsecond, hmatch⟩ := fnmatch_star_iff.mp hmatch
    obtain ⟨rest, rfl, hrest⟩ := (hslash second).mp hmatch
    exact ⟨rest, mem_afterSlash_iff.mpr (hsecond.trans hfirst), hrest⟩
  · rintro ⟨tail, htail, hmatch⟩
    exact ⟨_, mem_afterSlash_iff.mp htail, fnmatch_star_iff.mpr
      ⟨_, List.suffix_rfl, (hslash _).mpr ⟨tail, rfl, hmatch⟩⟩⟩

end DevRepro.Python
