import DevRepro.Core.VersionOrder
import DevRepro.Rules.Packs

/-!
# The order that advisories go by

`compliance/advisories.py` compares versions with the operators of `Version`, which go by
`_key`, and `core/versioning.py` compares them with `_cmp_versions`.  The two orders are
the same where no version has zeros at its end that the other one lacks and either both
have a tag or neither has.
-/

namespace DevRepro.Rules

open DevRepro.Python DevRepro.Lib DevRepro.Core

variable {a b : Version}

/-! ## The operators of a version -/

/-- `Version._key`, compared as tuples are. -/
def versionKey (v : Version) : List ℕ ×ₗ ℕ ×ₗ List ℕ :=
  toLex (v.nums, toLex (if v.tag = none then 0 else 1, (v.tag.getD []).map Fin.val))

theorem versionKey_lt_of_nums (h : a.nums < b.nums) : versionKey a < versionKey b :=
  Prod.Lex.lt_iff.mpr (Or.inl h)

theorem map_val_lt_iff {s t : Str} : s.map Fin.val < t.map Fin.val ↔ s < t := by
  induction s generalizing t with
  | nil => cases t <;> simp
  | cons c s ih =>
    cases t with
    | nil => simp
    | cons d t =>
      rw [List.map_cons, List.map_cons, List.cons_lt_cons_iff, List.cons_lt_cons_iff, ih]
      rw [Fin.ext_iff]
      rfl

theorem map_val_inj {s t : Str} : s.map Fin.val = t.map Fin.val ↔ s = t :=
  List.map_inj_right fun _ _ h => Fin.ext h

/-- With the same numbers a release comes first, and tags stand in their own order. -/
theorem versionKey_lt_iff (h : a.nums = b.nums) :
    versionKey a < versionKey b ↔
      match a.tag, b.tag with
      | _, none => False
      | none, some _ => True
      | some s, some t => s < t := by
  unfold versionKey
  rw [h, Prod.Lex.lt_iff]
  cases a.tag <;> cases b.tag <;> simp [Prod.Lex.lt_iff, map_val_lt_iff]

theorem versionKey_eq_iff : versionKey a = versionKey b ↔ a = b := by
  constructor
  · intro h
    unfold versionKey at h
    rw [toLex_inj, Prod.mk.injEq, toLex_inj, Prod.mk.injEq] at h
    obtain ⟨hnums, hflag, htag⟩ := h
    obtain ⟨nums, tag⟩ := a
    obtain ⟨others, other⟩ := b
    cases tag <;> cases other <;> simp_all [map_val_inj]
  · exact fun h => h ▸ rfl

/-- The `<` of the model is that of the keys. -/
theorem versionLt_iff (a b : Version) : versionLt a b = true ↔ versionKey a < versionKey b := by
  unfold versionLt
  split_ifs with h
  · rw [versionKey_lt_iff h]
    cases a.tag <;> cases b.tag <;> simp [strLe_iff, lt_iff_le_and_ne, and_comm]
  · rw [decide_eq_true_eq]
    constructor
    · exact versionKey_lt_of_nums
    · intro hkey
      rcases Prod.Lex.lt_iff.mp hkey with hlt | ⟨heq, -⟩
      · exact hlt
      · exact absurd heq h

/-- The operators of `Version` and its hash say what `_cmp_versions` says. -/
def Agrees (hash : List ℕ ×ₗ ℕ ×ₗ List ℕ → Int) (a b : Version) : Prop :=
  (versionKey a < versionKey b ↔ cmpVersions a b = .lt) ∧
    (versionKey a ≤ versionKey b ↔ cmpVersions a b ≠ .gt) ∧
    (versionKey a = versionKey b ↔ cmpVersions a b = .eq) ∧
    (versionKey b < versionKey a ↔ cmpVersions a b = .gt) ∧
    (versionKey b ≤ versionKey a ↔ cmpVersions a b ≠ .lt) ∧
    (cmpVersions a b = .eq → hash (versionKey a) = hash (versionKey b))

theorem agrees_iff_cmp (hash : List ℕ ×ₗ ℕ ×ₗ List ℕ → Int) (a b : Version) :
    Agrees hash a b ↔ cmpVersions a b = cmp (versionKey a) (versionKey b) := by
  have hkeys := cmp_compares (versionKey a) (versionKey b)
  unfold Agrees
  rw [← hkeys.eq_lt, ← hkeys.ne_gt, ← hkeys.eq_eq, ← hkeys.eq_gt, ← hkeys.ne_lt]
  constructor
  · rintro ⟨hlt, -, heq, hgt, -⟩
    cases h : cmp (versionKey a) (versionKey b) with
    | lt => exact hlt.mp h
    | eq => exact heq.mp h
    | gt => exact hgt.mp h
  · intro h
    rw [h]
    exact ⟨Iff.rfl, Iff.rfl, Iff.rfl, Iff.rfl, Iff.rfl,
      fun heq => congrArg hash (hkeys.eq_eq.mp heq)⟩

/-- Two versions that both orders put in one way: their numbers differ in more than zeros
at the end, or neither has more numbers and a tag is on both or on neither, or the one with
fewer numbers has the smaller tag. -/
def SameOrder (a b : Version) : Prop :=
  padded a.nums ≠ padded b.nums ∨
    a.nums.length = b.nums.length ∧ a.tag.isSome = b.tag.isSome ∨
    a.nums.length < b.nums.length ∧ tagPlace a.tag < tagPlace b.tag ∨
    b.nums.length < a.nums.length ∧ tagPlace b.tag < tagPlace a.tag

/-- With numbers that differ in zeros at the end alone, the lengths and the tags decide. -/
theorem cmp_eq_iff_of_same_nums (h : padded a.nums = padded b.nums) :
    cmpVersions a b = cmp (versionKey a) (versionKey b) ↔ SameOrder a b := by
  unfold SameOrder
  rcases lt_trichotomy a.nums.length b.nums.length with hlen | hlen | hlen
  · have hkey := versionKey_lt_of_nums (lt_of_shorter h hlen)
    rw [(cmp_eq_lt_iff _ _).mpr hkey, cmpVersions_eq_lt, place_lt_of_same_nums h]
    simp [h, hlen, hlen.ne, hlen.not_gt]
  · have hnums : a.nums = b.nums := (eq_iff_padded_eq hlen).mpr h
    cases hcmp : cmp (versionKey a) (versionKey b) with
    | lt =>
      rw [cmp_eq_lt_iff, versionKey_lt_iff hnums] at hcmp
      rw [cmpVersions_eq_lt, place_lt_of_same_nums h]
      cases hs : a.tag <;> cases ht : b.tag <;> simp_all [tagPlace]
    | eq =>
      rw [cmp_eq_eq_iff, versionKey_eq_iff] at hcmp
      subst hcmp
      simp [cmpVersions_eq_eq]
    | gt =>
      rw [cmp_eq_gt_iff, versionKey_lt_iff hnums.symm] at hcmp
      rw [cmpVersions_eq_gt, place_lt_of_same_nums h.symm]
      cases hs : a.tag <;> cases ht : b.tag <;> simp_all [tagPlace]
  · have hkey := versionKey_lt_of_nums (lt_of_shorter h.symm hlen)
    rw [(cmp_eq_gt_iff _ _).mpr hkey, cmpVersions_eq_gt, place_lt_of_same_nums h.symm]
    simp [h, hlen, hlen.ne', hlen.not_gt]

theorem sameOrder_iff (hash : List ℕ ×ₗ ℕ ×ₗ List ℕ → Int) (a b : Version) :
    Agrees hash a b ↔ SameOrder a b := by
  rw [agrees_iff_cmp]
  rcases lt_trichotomy (padded a.nums) (padded b.nums) with hlt | heq | hgt
  · refine iff_of_true ?_ (Or.inl hlt.ne)
    rw [cmpVersions_eq_lt.mpr (place_lt_iff.mpr (Or.inl hlt))]
    exact ((cmp_eq_lt_iff _ _).mpr (versionKey_lt_of_nums (lt_of_padded_lt hlt))).symm
  · exact cmp_eq_iff_of_same_nums heq
  · refine iff_of_true ?_ (Or.inl hgt.ne')
    rw [cmpVersions_eq_gt.mpr (place_lt_iff.mpr (Or.inl hgt))]
    exact ((cmp_eq_gt_iff _ _).mpr (versionKey_lt_of_nums (lt_of_padded_lt hgt))).symm

/-! ## Advisories -/

variable (limits : Limits)

/-- The fix that goes for a version: the greatest of its branch, or of all if none is of it. -/
def fixFor (parsed : Version) (fixes : List Version) : Option Version :=
  let sameBranch := fixes.filter fun f => f.nums.take 2 = parsed.nums.take 2
  maxVersion (if sameBranch = [] then fixes else sameBranch)

/-- Whether a version stands before the one in which the advisory came up. -/
def early (parsed : Version) (introduced : Option Str) : Option Bool :=
  match introduced with
  | none | some [] => some false
  | some text => (parseVersion limits text).map (versionLt parsed)

/-- `is_affected`; `none` stands for the `ValueError` that ends it when the advisory
says `introduced` in a text that is not a version. -/
def isAffected? (version : Str) (advisory : Advisory) : Option Bool :=
  match parseVersion limits version, advisory.fixed.mapM (parseVersion limits) with
  | some parsed, some fixes =>
    if fixes = [] then some false
    else do
      let before ← early limits parsed advisory.introduced
      return !before && (fixFor parsed fixes).any (versionLt parsed)
  | _, _ => some false

/-- The rule pack's answer, where it gives one. -/
theorem isAffected?_eq (rt : RuleRuntime) (version : Str) (advisory : Advisory)
    (h : ∀ text ∈ advisory.introduced, text ≠ [] → (parseVersion rt.limits text).isSome = true) :
    isAffected? rt.limits version advisory = some (isAffected rt version advisory) := by
  unfold isAffected? isAffected
  cases parseVersion rt.limits version with
  | none => rfl
  | some parsed =>
    cases advisory.fixed.mapM (parseVersion rt.limits) with
    | none => rfl
    | some fixes =>
      cases fixes with
      | nil => rfl
      | cons first rest =>
        cases hintro : advisory.introduced with
        | none => rfl
        | some text =>
          cases text with
          | nil => rfl
          | cons c text =>
            obtain ⟨introduced, hparse⟩ :=
              Option.isSome_iff_exists.mp (h (c :: text) hintro (List.cons_ne_nil _ _))
            simp [early, hparse, fixFor]

theorem isAffected?_iff {version : Str} {advisory : Advisory} {parsed : Version}
    {fixes : List Version} (hparsed : parseVersion limits version = some parsed)
    (hfixes : advisory.fixed.mapM (parseVersion limits) = some fixes) :
    isAffected? limits version advisory = some true ↔
      early limits parsed advisory.introduced = some false ∧
        ∃ fix, fixFor parsed fixes = some fix ∧ versionKey parsed < versionKey fix := by
  unfold isAffected?
  rw [hparsed, hfixes]
  dsimp only
  split_ifs with hnil
  · subst hnil
    simp [fixFor, maxVersion]
  · change (early limits parsed advisory.introduced).bind _ = some true ↔ _
    cases early limits parsed advisory.introduced with
    | none => simp
    | some before =>
      cases before with
      | true => simp
      | false => cases fixFor parsed fixes <;> simp [versionLt_iff]

/-- A version that the advisory calls affected is another one than its fix. -/
def FixIsSafe (version : Str) (advisory : Advisory) : Prop :=
  ∀ parsed fixes fix, parseVersion limits version = some parsed →
    advisory.fixed.mapM (parseVersion limits) = some fixes → fixFor parsed fixes = some fix →
    isAffected? limits version advisory = some true → cmpVersions parsed fix ≠ .eq

/-- The version has no fewer numbers than its fix, where the two differ in zeros at the end
alone and it is not too early for the advisory. -/
def NoShorterThanFix (version : Str) (advisory : Advisory) : Prop :=
  ∀ parsed fixes fix, parseVersion limits version = some parsed →
    advisory.fixed.mapM (parseVersion limits) = some fixes → fixFor parsed fixes = some fix →
    early limits parsed advisory.introduced = some false → parsed.tag = fix.tag →
    padded parsed.nums = padded fix.nums → fix.nums.length ≤ parsed.nums.length

theorem tagPlace_inj {s t : Option Str} : tagPlace s = tagPlace t ↔ s = t := by
  cases s <;> cases t <;> simp [tagPlace]

theorem fixIsSafe_iff (version : Str) (advisory : Advisory) :
    FixIsSafe limits version advisory ↔ NoShorterThanFix limits version advisory := by
  refine forall_congr' fun parsed => forall_congr' fun fixes => forall_congr' fun fix =>
    forall_congr' fun hparsed => forall_congr' fun hfixes => forall_congr' fun hfix => ?_
  rw [isAffected?_iff limits hparsed hfixes, ne_eq, cmpVersions_eq_eq, place_eq_iff, tagPlace_inj]
  constructor
  · intro hsafe hearly htag hnums
    by_contra hlen
    have hkey := versionKey_lt_of_nums (lt_of_shorter hnums (not_le.mp hlen))
    exact hsafe ⟨hearly, fix, hfix, hkey⟩ ⟨hnums, htag⟩
  · rintro hlen ⟨hearly, other, hother, hkey⟩ ⟨hnums, htag⟩
    obtain rfl : fix = other := Option.some_inj.mp (hfix.symm.trans hother)
    -- neither longer nor of the same length, as the key of the version is the smaller one
    rcases (hlen hearly htag hnums).lt_or_eq with hlonger | hsame
    · exact lt_asymm hkey (versionKey_lt_of_nums (lt_of_shorter hnums.symm hlonger))
    · have heq : parsed.nums = fix.nums := (eq_iff_padded_eq hsame.symm).mpr hnums
      rw [versionKey_lt_iff heq, htag] at hkey
      cases htag : fix.tag <;> simp [htag] at hkey

/-- Where the order of the operators, and so of the advisories, is that of `_cmp_versions`. -/
theorem oneOrder_iff (hash : List ℕ ×ₗ ℕ ×ₗ List ℕ → Int) (limits : Limits) :
    (∀ a b, Agrees hash a b ↔ SameOrder a b) ∧
      ∀ version advisory,
        FixIsSafe limits version advisory ↔ NoShorterThanFix limits version advisory :=
  ⟨sameOrder_iff hash, fixIsSafe_iff limits⟩

/-- `1.2` comes before its equal `1.2.0` and is affected by what `1.2.0` fixes, and `1.2-rc`
comes after the `1.2` that it leads to. -/
theorem missingZero_differs :
    ∃ short long tagged, parseVersion ⟨1000, 4300⟩ "1.2" = some short ∧
      parseVersion ⟨1000, 4300⟩ "1.2.0" = some long ∧
      parseVersion ⟨1000, 4300⟩ "1.2-rc" = some tagged ∧
      cmpVersions short long = .eq ∧ versionKey short < versionKey long ∧
      cmpVersions tagged short = .lt ∧ versionKey short < versionKey tagged ∧
      isAffected? ⟨1000, 4300⟩ "1.2" ⟨"A-1", "git", "", ["1.2.0"], none, ""⟩ = some true := by
  refine ⟨⟨[1, 2], none⟩, ⟨[1, 2, 0], none⟩, ⟨[1, 2], some "rc"⟩, ?_⟩
  simp only [← versionLt_iff]
  decide +kernel

end DevRepro.Rules
