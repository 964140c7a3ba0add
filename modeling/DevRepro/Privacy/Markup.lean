import DevRepro.Lib.Markup
import DevRepro.Lib.Rewrite
import DevRepro.Privacy.Gate
import DevRepro.Python.Replace

/-!
# Redaction between markup characters

A character that stands in no spelling of the home path, not in the account name and
in no email address separates: `redact` changes the text on each side of it on its own
(`redact_separator`).  The characters of markup are such ones on a machine whose
paths and names have none of them.

A text without a `<` behind the redaction had no account name and no address in it
(`redact_eq_home`).
-/

namespace DevRepro.Privacy

open DevRepro.Python DevRepro.Lib

/-! ## Email addresses -/

/-- A character that is in no email address. -/
structure NoAddress (sep : CodePoint) : Prop where
  isLocal : isLocalChar sep = false
  isDomain : isDomainChar sep = false
  at_sign : sep ≠ codePoint '@'

variable {sep : CodePoint}

theorem NoAddress.isWord (h : NoAddress sep) : isWordChar sep = false := by
  have hlocal := h.isLocal
  simp only [isLocalChar, Bool.or_eq_false_iff] at hlocal
  exact hlocal.1.1.1.1

theorem NoAddress.isLetter (h : NoAddress sep) : isLetter sep = false := by
  have hword := h.isWord
  simp only [isWordChar, isAlnum, Bool.or_eq_false_iff] at hword
  exact hword.1.1

theorem NoAddress.dot (h : NoAddress sep) : sep ≠ codePoint '.' := by
  rintro rfl
  exact absurd h.isDomain (by decide)

theorem topLevel_separator (h : NoAddress sep) (a b : Str) : topLevel (a ++ sep :: b) = topLevel a := by
  have htake : (a ++ sep :: b).takeWhile isLetter = a.takeWhile isLetter := by
    rw [List.takeWhile_append, List.takeWhile_cons_of_neg (by simp [h.isLetter]), List.append_nil]
    split_ifs with hall
    · exact ((List.takeWhile_prefix isLetter).eq_of_length hall).symm
    · rfl
  rw [topLevel, topLevel, htake]

theorem domainRest_separator (h : NoAddress sep) (a b : Str) :
    domainRest (a ++ sep :: b) = domainRest a := by
  induction a with
  | nil =>
    have hnil : domainRest [] = none := rfl
    rw [List.nil_append, hnil, domainRest, h.isDomain, if_neg Bool.false_ne_true]
    exact if_neg h.dot
  | cons c a ih => rw [List.cons_append, domainRest, domainRest, ih, topLevel_separator h]

theorem domainMatch_separator (h : NoAddress sep) (a b : Str) :
    domainMatch (a ++ sep :: b) = domainMatch a := by
  cases a with
  | nil =>
    have hnil : domainMatch [] = none := rfl
    rw [List.nil_append, hnil, domainMatch, h.isDomain, if_neg Bool.false_ne_true]
  | cons c a => rw [List.cons_append, domainMatch, domainMatch, domainRest_separator h]

theorem localRest_separator (h : NoAddress sep) (a b : Str) :
    localRest (a ++ sep :: b) = localRest a := by
  induction a with
  | nil =>
    have hnil : localRest [] = none := rfl
    rw [List.nil_append, hnil, localRest, h.isLocal, if_neg Bool.false_ne_true, if_neg h.at_sign]
  | cons c a ih => rw [List.cons_append, localRest, localRest, ih, domainMatch_separator h]

theorem emailMatch_separator (h : NoAddress sep) (a b : Str) :
    emailMatch (a ++ sep :: b) = emailMatch a := by
  cases a with
  | nil =>
    have hnil : emailMatch [] = none := rfl
    rw [List.nil_append, hnil, emailMatch, h.isLocal, if_neg Bool.false_ne_true]
  | cons c a => rw [List.cons_append, emailMatch, emailMatch, localRest_separator h]

/-! ## The matchers -/

theorem emailMatcher_separates (h : NoAddress sep) : emailMatcher.Separates sep where
  ahead := fun _ a b => emailMatch_separator h a b
  before := fun _ => rfl

theorem textMatcher_separates {v : Str} (hv : sep ∉ v) : (textMatcher v).Separates sep where
  ahead := by
    intro prev a b
    show (if v.isPrefixOf (a ++ sep :: b) then some v.length else none) =
      if v.isPrefixOf a then some v.length else none
    rw [isPrefixOf_line hv]
  before := fun _ => rfl

theorem userMatcher_separates {name : Str} (h : NoAddress sep) (hname : sep ∉ name) :
    (userMatcher name).Separates sep where
  ahead := by
    intro prev a b
    have hbehind : name.isPrefixOf a = true →
        isBoundary ((a ++ sep :: b).drop name.length).head? =
          isBoundary (a.drop name.length).head? := by
      intro hstart
      rw [List.drop_append_of_le_length (List.isPrefixOf_iff_prefix.mp hstart).length_le]
      cases a.drop name.length with
      | nil => simp [isBoundary, h.isWord]
      | cons c rest => rfl
    show (if isBoundary prev && name.isPrefixOf (a ++ sep :: b) &&
        isBoundary ((a ++ sep :: b).drop name.length).head? then some name.length else none) =
      if isBoundary prev && name.isPrefixOf a && isBoundary (a.drop name.length).head? then
        some name.length else none
    rw [isPrefixOf_line hname]
    cases hstart : name.isPrefixOf a with
    | true => rw [hbehind hstart]
    | false => simp
  before := by
    intro s
    have hprev : isBoundary (some sep) = isBoundary none := by simp [isBoundary, h.isWord]
    show (if isBoundary (some sep) && name.isPrefixOf s &&
        isBoundary (s.drop name.length).head? then some name.length else none) = _
    rw [hprev]
    rfl

/-! ## The gate -/

variable {normcase : Str → Str} {gate : PrivacyGate normcase}

/-- A character that neither the paths nor the name of the machine have, nor an address. -/
structure PrivacyGate.Clear (gate : PrivacyGate normcase) (sep : CodePoint) : Prop where
  address : NoAddress sep
  variants : ∀ v ∈ gate.homeVariants, sep ∉ v
  username : sep ∉ gate.username

theorem redactVariant_eq (text variant : Str) :
    redactVariant text variant =
      if variant = [] then text else subAll (textMatcher variant) homePlaceholder text := by
  unfold redactVariant
  by_cases hnil : variant = []
  · rw [if_neg fun h => h.1 hnil, if_pos hnil]
  · rw [if_neg hnil]
    split_ifs with hin
    · rfl
    · -- A path that the text does not have is replaced nowhere.
      have habsent : ¬variant <:+: text := fun h => hin ⟨hnil, containsText_iff.mpr h⟩
      refine (subAll_eq_self fun a b hs _ n hsome => habsent ?_).symm
      change (if variant.isPrefixOf b then some variant.length else none) = _ at hsome
      split_ifs at hsome with hstart
      exact hs ▸ (List.isPrefixOf_iff_prefix.mp hstart).isInfix.trans (List.suffix_append a b).isInfix

theorem redactHome_separator (h : gate.Clear sep) (a b : Str) :
    gate.redactHome (a ++ sep :: b) = gate.redactHome a ++ sep :: gate.redactHome b := by
  have hall : ∀ (vs : List Str), (∀ v ∈ vs, sep ∉ v) → ∀ a b : Str,
      vs.foldl redactVariant (a ++ sep :: b) =
        vs.foldl redactVariant a ++ sep :: vs.foldl redactVariant b := by
    intro vs
    induction vs with
    | nil => exact fun _ _ _ => rfl
    | cons v vs ih =>
      intro hvs a b
      rw [List.forall_mem_cons] at hvs
      have hstep : redactVariant (a ++ sep :: b) v = redactVariant a v ++ sep :: redactVariant b v := by
        rw [redactVariant_eq, redactVariant_eq, redactVariant_eq]
        split_ifs
        · rfl
        · exact subAll_separator (textMatcher_separates hvs.1) a b
      rw [List.foldl_cons, List.foldl_cons, List.foldl_cons, hstep]
      exact ih hvs.2 _ _
  exact hall _ h.variants a b

/-- The text on each side of such a character is redacted on its own. -/
theorem redact_separator (h : gate.Clear sep) (a b : Str) :
    gate.redact (a ++ sep :: b) = gate.redact a ++ sep :: gate.redact b := by
  have huser : ∀ a b : Str, gate.redactUser (a ++ sep :: b) =
      gate.redactUser a ++ sep :: gate.redactUser b := by
    intro a b
    unfold PrivacyGate.redactUser
    split_ifs
    · exact subAll_separator (userMatcher_separates h.address h.username) a b
    · rfl
  rw [PrivacyGate.redact, redactHome_separator h, huser]
  exact subAll_separator (emailMatcher_separates h.address) _ _

theorem redact_nil : gate.redact [] = [] := by
  have hvariants : ∀ vs : List Str, vs.foldl redactVariant [] = [] := by
    intro vs
    induction vs with
    | nil => rfl
    | cons v vs ih =>
      have hnil : redactVariant [] v = [] := by
        rw [redactVariant_eq]
        split_ifs
        · rfl
        · rfl
      rw [List.foldl_cons, hnil, ih]
  have huser : gate.redactUser [] = [] := by
    unfold PrivacyGate.redactUser
    split_ifs
    · rfl
    · rfl
  rw [PrivacyGate.redact, PrivacyGate.redactHome, hvariants, huser]
  rfl

/-- Such a character stays where it is. -/
theorem mem_redact (h : gate.Clear sep) {s : Str} (hs : sep ∈ s) : sep ∈ gate.redact s := by
  obtain ⟨a, b, rfl⟩ := List.append_of_mem hs
  rw [redact_separator h]
  exact List.mem_append_right _ List.mem_cons_self

/-- The placeholders of an account name and of an address have an angle bracket. -/
theorem redact_eq_home {s : Str} (h : codePoint '<' ∉ gate.redact s) :
    gate.redact s = gate.redactHome s := by
  have hemail := subAll_eq_self_of_not_mem (m := emailMatcher)
    (show codePoint '<' ∈ emailPlaceholder by decide) h
  rw [PrivacyGate.redact] at h ⊢
  rw [hemail] at h ⊢
  unfold PrivacyGate.redactUser at h ⊢
  split_ifs at h ⊢ with hname
  · exact subAll_eq_self_of_not_mem (m := userMatcher gate.username)
      (show codePoint '<' ∈ userPlaceholder by decide) h
  · rfl

/-- The home path is replaced by a tilde. -/
theorem mem_redactHome {c : CodePoint} {s : Str} (h : c ∈ gate.redactHome s) :
    c ∈ s ∨ c = codePoint '~' := by
  have hall : ∀ (vs : List Str) (s : Str), c ∈ vs.foldl redactVariant s → c ∈ s ∨ c = codePoint '~' := by
    intro vs
    induction vs with
    | nil => exact fun s hs => Or.inl hs
    | cons v vs ih =>
      intro s hs
      rcases ih _ hs with hin | htilde
      · rw [redactVariant_eq] at hin
        split_ifs at hin
        · exact Or.inl hin
        · rcases mem_of_mem_subAll hin with hin | hin
          · exact Or.inl hin
          · exact Or.inr (List.mem_singleton.mp hin)
      · exact Or.inr htilde
  exact hall _ _ h

theorem not_mem_redactHome {c : CodePoint} (hc : c ≠ codePoint '~') {s : Str} (hs : c ∉ s) :
    c ∉ gate.redactHome s := fun h => (mem_redactHome h).elim hs hc

/-! ## Documents -/

/-- A tag and its text, redacted. -/
def PrivacyGate.redactItem (gate : PrivacyGate normcase) (item : Str × Str) : Str × Str :=
  (gate.redact item.1, gate.redact item.2)

/-- A document of tags is redacted tag by tag and text by text. -/
theorem redact_printMarkup {lt gt : CodePoint} (hlt : gate.Clear lt) (hgt : gate.Clear gt)
    (items : Markup CodePoint) :
    gate.redact (printMarkup lt gt items) = printMarkup lt gt (items.map gate.redactItem) := by
  have htext : ∀ (items : Markup CodePoint) (text : Str),
      gate.redact (text ++ printMarkup lt gt items) =
        gate.redact text ++ printMarkup lt gt (items.map gate.redactItem) := by
    intro items
    induction items with
    | nil =>
      intro text
      simp [printMarkup]
    | cons item items ih =>
      intro text
      have hprint : text ++ printMarkup lt gt (item :: items) =
          text ++ lt :: (item.1 ++ gt :: (item.2 ++ printMarkup lt gt items)) := by
        simp [printMarkup, printTag]
      rw [hprint, redact_separator hlt, redact_separator hgt, ih]
      simp [printMarkup, printTag, PrivacyGate.redactItem]
  have h := htext items []
  rw [List.nil_append, redact_nil, List.nil_append] at h
  exact h

end DevRepro.Privacy
