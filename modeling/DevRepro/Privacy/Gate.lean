import DevRepro.Python.JsonLiterals
import DevRepro.Python.Words

/-!
# The privacy gate

`PrivacyGate.redact` of `privacy/gate.py`, without private hosts: the final pass over
a report has none.

The gate replaces in a text the spellings of the home path, then the account name
where no word character touches it, then email addresses.  Each pass is `subAll` with
a matcher of its own.
-/

namespace DevRepro.Privacy

open DevRepro.Python DevRepro.Lib

/-! ## Character classes -/

/-- `[A-Za-z]` -/
def isLetter (c : CodePoint) : Bool :=
  (0x41 ≤ c.val && c.val ≤ 0x5A) || (0x61 ≤ c.val && c.val ≤ 0x7A)

/-- `[A-Za-z0-9]` -/
def isAlnum (c : CodePoint) : Bool := isLetter c || (0x30 ≤ c.val && c.val ≤ 0x39)

/-- `[A-Za-z0-9_]` -/
def isWordChar (c : CodePoint) : Bool := isAlnum c || c == codePoint '_'

/-- `[A-Za-z0-9._%+-]` -/
def isLocalChar (c : CodePoint) : Bool :=
  isWordChar c || c == codePoint '.' || c == codePoint '%' || c == codePoint '+' ||
    c == codePoint '-'

/-- `[A-Za-z0-9.-]` -/
def isDomainChar (c : CodePoint) : Bool :=
  isAlnum c || c == codePoint '.' || c == codePoint '-'

/-! ## Email addresses -/

/-- `[A-Za-z]{2,}` -/
def topLevel (s : Str) : Option Nat :=
  if 2 ≤ (s.takeWhile isLetter).length then some (s.takeWhile isLetter).length else none

/-- `[A-Za-z0-9.-]*\.[A-Za-z]{2,}`, with the longest first part. -/
def domainRest : Str → Option Nat
  | [] => none
  | c :: rest =>
    match if isDomainChar c then domainRest rest else none with
    | some n => some (n + 1)
    | none => if c = codePoint '.' then (topLevel rest).map (· + 1) else none

/-- `[A-Za-z0-9.-]+\.[A-Za-z]{2,}` -/
def domainMatch : Str → Option Nat
  | [] => none
  | c :: rest => if isDomainChar c then (domainRest rest).map (· + 1) else none

/-- `[A-Za-z0-9._%+-]*@[A-Za-z0-9.-]+\.[A-Za-z]{2,}`.  The first part cannot be shorter than
it can be, because it does not match the `@`. -/
def localRest : Str → Option Nat
  | [] => none
  | c :: rest =>
    if isLocalChar c then (localRest rest).map (· + 1)
    else if c = codePoint '@' then (domainMatch rest).map (· + 1)
    else none

/-- `_EMAIL_RE`, at the start of a text. -/
def emailMatch : Str → Option Nat
  | [] => none
  | c :: rest => if isLocalChar c then (localRest rest).map (· + 1) else none

/-- A text splits behind a letter, and no letter follows. -/
def EndsInLetters (s : Str) (n : Nat) : Prop :=
  ∃ seg rest, s = seg ++ rest ∧ seg.length = n ∧ (∃ c ∈ seg.getLast?, isLetter c = true) ∧
    ∀ c ∈ rest.head?, isLetter c = false

theorem EndsInLetters.cons {s : Str} {n : Nat} (h : EndsInLetters s n) (c : CodePoint) :
    EndsInLetters (c :: s) (n + 1) := by
  obtain ⟨seg, rest, rfl, rfl, ⟨d, hd, hletter⟩, hrest⟩ := h
  refine ⟨c :: seg, rest, rfl, rfl, ⟨d, ?_, hletter⟩, hrest⟩
  rw [Option.mem_def] at hd ⊢
  rw [List.getLast?_cons, hd]
  rfl

theorem EndsInLetters.ne_zero {s : Str} (h : EndsInLetters s 0) : False := by
  obtain ⟨seg, rest, -, hlen, ⟨c, hc, -⟩, -⟩ := h
  rw [List.length_eq_zero_iff.mp hlen] at hc
  cases hc

theorem topLevel_spec {s : Str} {n : Nat} (h : topLevel s = some n) : EndsInLetters s n := by
  unfold topLevel at h
  split_ifs at h with hlen
  cases h
  refine ⟨s.takeWhile isLetter, s.dropWhile isLetter, List.takeWhile_append_dropWhile.symm, rfl,
    ?_, ?_⟩
  · cases hlast : (s.takeWhile isLetter).getLast? with
    | none =>
      rw [List.getLast?_eq_none_iff.mp hlast] at hlen
      exact absurd hlen (by decide)
    | some d => exact ⟨d, rfl, List.mem_takeWhile_imp (List.mem_of_getLast? hlast)⟩
  · intro c hc
    have hhead := List.head?_dropWhile_not isLetter s
    rw [Option.mem_def] at hc
    rw [hc] at hhead
    simpa using hhead

theorem map_succ_eq_some {x : Option Nat} {n : Nat} (h : x.map (· + 1) = some n) :
    ∃ k, x = some k ∧ n = k + 1 := by
  obtain ⟨k, hk, rfl⟩ := Option.map_eq_some_iff.mp h
  exact ⟨k, hk, rfl⟩

theorem eq_some_of_map_succ {x : Option Nat} {n : Nat} (h : x.map (· + 1) = some (n + 1)) :
    x = some n := by
  obtain ⟨k, hk, heq⟩ := map_succ_eq_some h
  cases heq
  exact hk

theorem domainRest_spec {s : Str} {n : Nat} (h : domainRest s = some n) : EndsInLetters s n := by
  induction s generalizing n with
  | nil => cases h
  | cons c rest ih =>
    rw [domainRest] at h
    split at h
    · rename_i k hk
      cases h
      split_ifs at hk
      exact (ih hk).cons c
    · split_ifs at h
      obtain ⟨k, hk, rfl⟩ := map_succ_eq_some h
      exact (topLevel_spec hk).cons c

theorem domainMatch_spec {s : Str} {n : Nat} (h : domainMatch s = some n) : EndsInLetters s n := by
  cases s with
  | nil => cases h
  | cons c rest =>
    rw [domainMatch] at h
    split_ifs at h
    obtain ⟨k, hk, rfl⟩ := map_succ_eq_some h
    exact (domainRest_spec hk).cons c

theorem localRest_spec {s : Str} {n : Nat} (h : localRest s = some n) : EndsInLetters s n := by
  induction s generalizing n with
  | nil => cases h
  | cons c rest ih =>
    rw [localRest] at h
    split_ifs at h
    · obtain ⟨k, hk, rfl⟩ := map_succ_eq_some h
      exact (ih hk).cons c
    · obtain ⟨k, hk, rfl⟩ := map_succ_eq_some h
      exact (domainMatch_spec hk).cons c

/-- An address ends with as many letters as it can. -/
theorem emailMatch_spec {s : Str} {n : Nat} (h : emailMatch s = some n) : EndsInLetters s n := by
  cases s with
  | nil => cases h
  | cons c rest =>
    rw [emailMatch] at h
    split_ifs at h
    obtain ⟨k, hk, rfl⟩ := map_succ_eq_some h
    exact (localRest_spec hk).cons c

/-- A character that may stand in the first part of an address belongs to the address
behind it. -/
theorem emailMatch_cons {c : CodePoint} {s : Str} {n : Nat} (hc : isLocalChar c = true)
    (h : emailMatch s = some n) : emailMatch (c :: s) = some (n + 1) := by
  cases s with
  | nil => cases h
  | cons d rest =>
    rw [emailMatch] at h
    split_ifs at h with hd
    obtain ⟨k, hk, rfl⟩ := map_succ_eq_some h
    rw [emailMatch, if_pos hc, localRest, if_pos hd, hk]
    rfl

/-! ### What an address takes -/

theorem takeWhile_eq_of_length {w b : Str} (h : ((w ++ b).takeWhile isLetter).length = w.length) :
    ∀ c ∈ w, isLetter c = true := by
  have heq : (w ++ b).takeWhile isLetter = w :=
    List.prefix_of_prefix_length_le (List.takeWhile_prefix isLetter) (List.prefix_append w b) h.le
      |>.eq_of_length h
  exact fun c hc => List.mem_takeWhile_imp (heq.symm ▸ hc)

theorem topLevel_eq_some {w b : Str} (h : topLevel (w ++ b) = some w.length) :
    2 ≤ w.length ∧ ∀ c ∈ w, isLetter c = true := by
  unfold topLevel at h
  split_ifs at h with hlen
  have hlength := Option.some.inj h
  exact ⟨hlength ▸ hlen, takeWhile_eq_of_length hlength⟩

theorem topLevel_ne_none {w : Str} (hlen : 2 ≤ w.length) (hw : ∀ c ∈ w, isLetter c = true) (b : Str) :
    topLevel (w ++ b) ≠ none := by
  have htake : (w ++ b).takeWhile isLetter = w ++ b.takeWhile isLetter := List.takeWhile_append_of_pos hw
  have hlong : 2 ≤ ((w ++ b).takeWhile isLetter).length := by
    rw [htake, List.length_append]
    omega
  rw [topLevel, if_pos hlong]
  exact Option.some_ne_none _

theorem domainRest_cons_eq_some {c : CodePoint} {s : Str} {n : Nat} (h : domainRest (c :: s) = some (n + 1)) :
    isDomainChar c = true ∧ domainRest s = some n ∨
      (isDomainChar c = true → domainRest s = none) ∧ c = codePoint '.' ∧ topLevel s = some n := by
  rw [domainRest] at h
  split at h
  · rename_i k hk
    split_ifs at hk with hdomain
    cases h
    exact Or.inl ⟨hdomain, hk⟩
  · rename_i hnone
    split_ifs at h with hdot
    have hk := eq_some_of_map_succ h
    exact Or.inr ⟨fun hdomain => by rwa [if_pos hdomain] at hnone, hdot, hk⟩

theorem domainRest_cons_ne_none {c : CodePoint} {s : Str}
    (h : isDomainChar c = true ∧ domainRest s ≠ none ∨ c = codePoint '.' ∧ topLevel s ≠ none) :
    domainRest (c :: s) ≠ none := by
  rw [domainRest]
  split
  · exact Option.some_ne_none _
  · rename_i hnone
    rcases h with ⟨hdomain, hrest⟩ | ⟨hdot, htop⟩
    · rw [if_pos hdomain] at hnone
      exact absurd hnone hrest
    · rw [if_pos hdot]
      simpa using htop

/-- What belongs to an address belongs to one before any other text too. -/
theorem domainRest_kept {w b : Str} (h : domainRest (w ++ b) = some w.length) (t : Str) :
    domainRest (w ++ t) ≠ none := by
  induction w with
  | nil => exact (domainRest_spec h).ne_zero.elim
  | cons c w ih =>
    refine domainRest_cons_ne_none ?_
    rcases domainRest_cons_eq_some h with ⟨hdomain, hrest⟩ | ⟨-, hdot, htop⟩
    · exact Or.inl ⟨hdomain, ih hrest⟩
    · obtain ⟨hlen, hletters⟩ := topLevel_eq_some htop
      exact Or.inr ⟨hdot, topLevel_ne_none hlen hletters t⟩

theorem domainMatch_kept {w b : Str} (h : domainMatch (w ++ b) = some w.length) (t : Str) :
    domainMatch (w ++ t) ≠ none := by
  cases w with
  | nil => exact (domainMatch_spec h).ne_zero.elim
  | cons c w =>
    rw [List.cons_append, domainMatch] at h ⊢
    split_ifs at h ⊢ with hc
    have hk := eq_some_of_map_succ h
    simpa using domainRest_kept hk t

theorem localRest_kept {w b : Str} (h : localRest (w ++ b) = some w.length) (t : Str) :
    localRest (w ++ t) ≠ none := by
  induction w with
  | nil => exact (localRest_spec h).ne_zero.elim
  | cons c w ih =>
    rw [List.cons_append, localRest] at h ⊢
    split_ifs at h ⊢ with hc hat
    · have hk := eq_some_of_map_succ h
      simpa using ih hk
    · have hk := eq_some_of_map_succ h
      simpa using domainMatch_kept hk t

theorem emailMatch_kept {w b : Str} (h : emailMatch (w ++ b) = some w.length) (t : Str) :
    emailMatch (w ++ t) ≠ none := by
  cases w with
  | nil => exact (emailMatch_spec h).ne_zero.elim
  | cons c w =>
    rw [List.cons_append, emailMatch] at h ⊢
    split_ifs at h ⊢ with hc
    have hk := eq_some_of_map_succ h
    simpa using localRest_kept hk t

theorem domainRest_append {s : Str} (h : domainRest s ≠ none) (t : Str) : domainRest (s ++ t) ≠ none := by
  obtain ⟨n, hn⟩ := Option.ne_none_iff_exists'.mp h
  obtain ⟨seg, rest, rfl, rfl, -⟩ := domainRest_spec hn
  rw [List.append_assoc]
  exact domainRest_kept hn (rest ++ t)

theorem isDomainChar_of_isLetter {c : CodePoint} (h : isLetter c = true) : isDomainChar c = true := by
  simp [isDomainChar, isAlnum, h]

theorem domainRest_behind {seg rest : Str} (hseg : ∀ c ∈ seg, isDomainChar c = true)
    (h : domainRest rest ≠ none) : domainRest (seg ++ rest) ≠ none := by
  induction seg with
  | nil => exact h
  | cons c seg ih =>
    rw [List.forall_mem_cons] at hseg
    exact domainRest_cons_ne_none (Or.inl ⟨hseg.1, ih hseg.2⟩)

/-- The domain of an address is as long as it can be. -/
theorem domainRest_longest {seg rest : Str} (h : domainRest (seg ++ rest) = some seg.length) :
    domainRest rest = none := by
  induction seg with
  | nil => exact (domainRest_spec h).ne_zero.elim
  | cons c seg ih =>
    rcases domainRest_cons_eq_some h with ⟨-, hrest⟩ | ⟨hnone, hdot, htop⟩
    · exact ih hrest
    · by_contra hsome
      obtain ⟨-, hletters⟩ := topLevel_eq_some htop
      exact domainRest_behind (fun d hd => isDomainChar_of_isLetter (hletters d hd)) hsome
        (hnone (hdot ▸ by decide))

theorem domainMatch_longest {seg rest : Str} (h : domainMatch (seg ++ rest) = some seg.length) :
    domainRest rest = none := by
  cases seg with
  | nil => exact (domainMatch_spec h).ne_zero.elim
  | cons c seg =>
    rw [List.cons_append, domainMatch] at h
    split_ifs at h
    have hk := eq_some_of_map_succ h
    exact domainRest_longest hk

theorem localRest_longest {seg rest : Str} (h : localRest (seg ++ rest) = some seg.length) :
    domainRest rest = none := by
  induction seg with
  | nil => exact (localRest_spec h).ne_zero.elim
  | cons c seg ih =>
    rw [List.cons_append, localRest] at h
    split_ifs at h
    · have hk := eq_some_of_map_succ h
      exact ih hk
    · have hk := eq_some_of_map_succ h
      exact domainMatch_longest hk

/-- No domain goes on behind an address. -/
theorem emailMatch_longest {seg rest : Str} (h : emailMatch (seg ++ rest) = some seg.length) :
    domainRest rest = none := by
  cases seg with
  | nil => exact (emailMatch_spec h).ne_zero.elim
  | cons c seg =>
    rw [List.cons_append, emailMatch] at h
    split_ifs at h
    have hk := eq_some_of_map_succ h
    exact localRest_longest hk

theorem localRest_eq_none {s : Str} (h : codePoint '@' ∉ s) : localRest s = none := by
  induction s with
  | nil => rfl
  | cons c s ih =>
    rw [List.mem_cons, not_or] at h
    have hat : ¬c = codePoint '@' := fun hc => h.1 hc.symm
    rw [localRest, ih h.2, if_neg hat]
    split_ifs
    · rfl
    · rfl

/-- An address has an at-sign. -/
theorem emailMatch_eq_none {s : Str} (h : codePoint '@' ∉ s) : emailMatch s = none := by
  cases s with
  | nil => rfl
  | cons c s =>
    rw [emailMatch, localRest_eq_none (List.not_mem_of_not_mem_cons h)]
    split_ifs
    · rfl
    · rfl

/-! ## Matchers -/

/-- `_EMAIL_RE`. -/
def emailMatcher : Matcher CodePoint where
  find := fun _ s => emailMatch s
  fits := by
    intro _ s n h
    obtain ⟨seg, rest, rfl, rfl, -⟩ := emailMatch_spec h
    simp

/-- A literal text, as `str.replace` looks for it. -/
def textMatcher (v : Str) : Matcher CodePoint where
  find := fun _ s => if v.isPrefixOf s then some v.length else none
  fits := by
    intro _ s n h
    split_ifs at h with hpre
    cases h
    exact (List.isPrefixOf_iff_prefix.mp hpre).length_le

/-- No word character. -/
def isBoundary (c : Option CodePoint) : Bool := c.all fun c => !isWordChar c

/-- `(?<![A-Za-z0-9_])name(?![A-Za-z0-9_])` -/
def userMatcher (name : Str) : Matcher CodePoint where
  find := fun prev s =>
    if isBoundary prev && name.isPrefixOf s && isBoundary (s.drop name.length).head? then
      some name.length
    else none
  fits := by
    intro prev s n h
    split_ifs at h with hmatch
    cases h
    rw [Bool.and_eq_true, Bool.and_eq_true] at hmatch
    exact (List.isPrefixOf_iff_prefix.mp hmatch.1.2).length_le

/-! ## The gate -/

/-- `s.replace(a, b)` for two characters. -/
def replaceChar (a b : CodePoint) (s : Str) : Str := s.map fun c => if c = a then b else c

/-- A `PrivacyGate`.  The spellings of the home path are a set, and `sorted` gives them
with the longest first, in some order where they are as long as each other. -/
structure PrivacyGate (normcase : Str → Str) where
  home : Str
  username : Str
  homeVariants : List Str
  mem_homeVariants : ∀ v, v ∈ homeVariants ↔
    v = home ∨ v = replaceChar (codePoint '\\') (codePoint '/') home ∨
      v = replaceChar (codePoint '/') (codePoint '\\') home ∨ v = normcase home
  nodup : homeVariants.Nodup
  sorted : homeVariants.Pairwise fun v w => w.length ≤ v.length

def homePlaceholder : Str := "~"
def userPlaceholder : Str := "<user>"
def emailPlaceholder : Str := "<email-redacted>"

/-- One spelling of the home path. -/
def redactVariant (out variant : Str) : Str :=
  if variant ≠ [] ∧ containsText out variant = true then
    subAll (textMatcher variant) homePlaceholder out
  else out

namespace PrivacyGate

variable {normcase : Str → Str} (gate : PrivacyGate normcase)

/-- `redact`, its first part: home paths. -/
def redactHome (text : Str) : Str := gate.homeVariants.foldl redactVariant text

/-- `redact`, its second part: the account name. -/
def redactUser (out : Str) : Str :=
  if gate.username ≠ [] then subAll (userMatcher gate.username) userPlaceholder out else out

/-- `PrivacyGate.redact`. -/
def redact (text : Str) : Str :=
  subAll emailMatcher emailPlaceholder (gate.redactUser (gate.redactHome text))

end PrivacyGate

end DevRepro.Privacy
