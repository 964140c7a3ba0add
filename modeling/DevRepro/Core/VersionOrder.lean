import DevRepro.Core.Versioning
import DevRepro.Lib.Padded
import Mathlib.Data.Prod.Lex
import Mathlib.Order.WithBot

/-!
# The order of versions

`_cmp_versions` compares versions in a linear order: by the numbers with zeros behind
them, and then by the tag, where a release stands after every tag.

It is a total preorder.  What a clause other than `!=` asks for is an interval of it, so a
group of such clauses is satisfied by everything between two versions that satisfy it:
`cmpVersions_preorder`.
-/

namespace DevRepro.Core

open DevRepro.Python DevRepro.Lib

variable {a b : Version}

theorem strLe_iff (s t : Str) : strLe s t = true ↔ s ≤ t := by
  rw [← not_lt]
  induction s generalizing t with
  | nil => exact iff_of_true rfl (List.not_lt_nil t)
  | cons c s ih =>
    cases t with
    | nil => exact iff_of_false Bool.false_ne_true (not_not.mpr (List.nil_lt_cons c s))
    | cons d t =>
      rw [strLe, Bool.or_eq_true, Bool.and_eq_true, decide_eq_true_eq, decide_eq_true_eq, ih,
        List.cons_lt_cons_iff, not_or, not_and]
      rcases lt_trichotomy c d with hlt | rfl | hgt
      · exact iff_of_true (Or.inl hlt) ⟨lt_asymm hlt, fun heq => absurd heq hlt.ne'⟩
      · simp
      · refine iff_of_false ?_ fun h => h.1 hgt
        rintro (hlt | ⟨heq, -⟩)
        · exact lt_asymm hgt hlt
        · exact hgt.ne' heq

/-- Where a tag stands: a version without one comes last. -/
def tagPlace : Option Str → WithTop Str
  | none => ⊤
  | some tag => (tag : WithTop Str)

/-- Where a version stands. -/
def place (v : Version) : Lex (ℕ → ℕ) ×ₗ WithTop Str := toLex (padded v.nums, tagPlace v.tag)

theorem place_lt_iff :
    place a < place b ↔
      padded a.nums < padded b.nums ∨
        padded a.nums = padded b.nums ∧ tagPlace a.tag < tagPlace b.tag :=
  Prod.Lex.lt_iff

/-- With zeros at the end as the only difference of the numbers, the tags decide. -/
theorem place_lt_of_same_nums (h : padded a.nums = padded b.nums) :
    place a < place b ↔ tagPlace a.tag < tagPlace b.tag := by
  rw [place_lt_iff]
  constructor
  · rintro (hlt | ⟨-, htag⟩)
    · exact absurd hlt (h ▸ lt_irrefl _)
    · exact htag
  · exact fun htag => Or.inr ⟨h, htag⟩

theorem place_eq_iff :
    place a = place b ↔ padded a.nums = padded b.nums ∧ tagPlace a.tag = tagPlace b.tag := by
  unfold place
  rw [toLex_inj, Prod.mk.injEq]

/-- Tags as `_cmp_versions` compares them. -/
def cmpTags : Option Str → Option Str → Ordering
  | none, none => .eq
  | none, some _ => .gt
  | some _, none => .lt
  | some s, some t => if s = t then .eq else if strLe s t then .lt else .gt

theorem cmpTags_compares (s t : Option Str) : (cmpTags s t).Compares (tagPlace s) (tagPlace t) := by
  cases s with
  | none =>
    cases t with
    | none => rfl
    | some t => exact WithTop.coe_lt_top t
  | some s =>
    cases t with
    | none => exact WithTop.coe_lt_top s
    | some t =>
      simp only [cmpTags]
      split_ifs with heq hle
      · exact heq ▸ rfl
      · exact WithTop.coe_lt_coe.mpr (lt_of_le_of_ne ((strLe_iff s t).mp hle) heq)
      · rw [strLe_iff, not_le] at hle
        exact WithTop.coe_lt_coe.mpr hle

/-- `_cmp_versions` is the comparison of the places. -/
theorem cmpVersions_compares (a b : Version) : (cmpVersions a b).Compares (place a) (place b) := by
  have hlen : (a.nums ++ List.replicate (max a.nums.length b.nums.length - a.nums.length) 0).length =
      (b.nums ++ List.replicate (max a.nums.length b.nums.length - b.nums.length) 0).length := by
    simp only [List.length_append, List.length_replicate]
    omega
  have hless := lt_iff_padded_lt hlen
  have hmore := lt_iff_padded_lt hlen.symm
  rw [padded_append_zeros, padded_append_zeros] at hless hmore
  have htags := cmpTags_compares a.tag b.tag
  unfold cmpVersions
  dsimp only
  split_ifs with hlt hgt
  · exact place_lt_iff.mpr (Or.inl (hless.mp hlt))
  · exact place_lt_iff.mpr (Or.inl (hmore.mp hgt))
  · have heq : padded a.nums = padded b.nums :=
      le_antisymm (not_lt.mp (mt hmore.mpr hgt)) (not_lt.mp (mt hless.mpr hlt))
    change (cmpTags a.tag b.tag).Compares _ _
    cases hcmp : cmpTags a.tag b.tag with
    | lt => exact place_lt_iff.mpr (Or.inr ⟨heq, by simpa [hcmp] using htags⟩)
    | eq => exact place_eq_iff.mpr ⟨heq, by simpa [hcmp] using htags⟩
    | gt => exact place_lt_iff.mpr (Or.inr ⟨heq.symm, by simpa [hcmp] using htags⟩)

theorem cmpVersions_eq_lt : cmpVersions a b = .lt ↔ place a < place b :=
  (cmpVersions_compares a b).eq_lt

theorem cmpVersions_eq_eq : cmpVersions a b = .eq ↔ place a = place b :=
  (cmpVersions_compares a b).eq_eq

theorem cmpVersions_eq_gt : cmpVersions a b = .gt ↔ place b < place a :=
  (cmpVersions_compares a b).eq_gt

/-! ## Releases -/

/-- A version without a tag. -/
def release (nums : List Nat) : Version := ⟨nums, none⟩

variable {xs ys : List Nat}

theorem release_lt_iff : place (release xs) < place (release ys) ↔ padded xs < padded ys := by
  rw [place_lt_iff]
  simp [release]

theorem release_eq_iff : place (release xs) = place (release ys) ↔ padded xs = padded ys := by
  rw [place_eq_iff]
  simp [release]

variable {c : Version}

/-! ## The preorder -/

theorem cmpVersions_swap (a b : Version) : cmpVersions a b = (cmpVersions b a).swap := by
  have h := cmpVersions_compares a b
  cases hcmp : cmpVersions b a with
  | lt =>
    rw [cmpVersions_eq_lt] at hcmp
    exact cmpVersions_eq_gt.mpr hcmp
  | eq =>
    rw [cmpVersions_eq_eq] at hcmp
    exact cmpVersions_eq_eq.mpr hcmp.symm
  | gt =>
    rw [cmpVersions_eq_gt] at hcmp
    exact cmpVersions_eq_lt.mpr hcmp

theorem cmpVersions_ne_gt : cmpVersions a b ≠ .gt ↔ place a ≤ place b := by
  rw [Ne, cmpVersions_eq_gt, not_lt]

theorem cmpVersions_ne_lt : cmpVersions a b ≠ .lt ↔ place b ≤ place a := by
  rw [Ne, cmpVersions_eq_lt, not_lt]

theorem cmpVersions_trans (hab : cmpVersions a b ≠ .gt) (hbc : cmpVersions b c ≠ .gt) :
    cmpVersions a c ≠ .gt := by
  rw [cmpVersions_ne_gt] at *
  exact hab.trans hbc

theorem tagPlace_eq_iff {s t : Option Str} : tagPlace s = tagPlace t ↔ s = t := by
  cases s with
  | none =>
    cases t with
    | none => simp
    | some t => exact iff_of_false (WithTop.coe_lt_top t).ne' (by simp)
  | some s =>
    cases t with
    | none => exact iff_of_false (WithTop.coe_lt_top s).ne (by simp)
    | some t => simp [tagPlace]

/-- Versions that compare as equal. -/
theorem cmpVersions_eq_iff : cmpVersions a b = .eq ↔
    withoutTrailingZeros a.nums = withoutTrailingZeros b.nums ∧ a.tag = b.tag := by
  rw [cmpVersions_eq_eq, place_eq_iff, padded_eq_iff_trimmed, tagPlace_eq_iff]

/-! ## Clauses as intervals -/

/-- The places at which a clause is satisfied. -/
def clausePlaces (clause : Op × Version) : Set (Lex (ℕ → ℕ) ×ₗ WithTop Str) :=
  match clause.1 with
  | .any => Set.univ
  | .ge => Set.Ici (place clause.2)
  | .le => Set.Iic (place clause.2)
  | .ne => Set.compl {place clause.2}
  | .eq => Set.Icc (place clause.2) (place clause.2)
  | .gt => Set.Ioi (place clause.2)
  | .lt => Set.Iio (place clause.2)

theorem satisfiedBy_places (clause : Op × Version) :
    satisfiedBy a clause = true ↔ place a ∈ clausePlaces clause := by
  obtain ⟨op, version⟩ := clause
  cases op with
  | any => exact iff_of_true rfl trivial
  | ge => simp only [satisfiedBy, bne_iff_ne, cmpVersions_ne_lt, clausePlaces, Set.mem_Ici]
  | le => simp only [satisfiedBy, bne_iff_ne, cmpVersions_ne_gt, clausePlaces, Set.mem_Iic]
  | ne =>
    simp only [satisfiedBy, bne_iff_ne, Ne, cmpVersions_eq_eq, clausePlaces]
    rfl
  | eq =>
    simp only [satisfiedBy, beq_iff_eq, cmpVersions_eq_eq, clausePlaces, Set.Icc_self,
      Set.mem_singleton_iff]
  | gt => simp only [satisfiedBy, beq_iff_eq, cmpVersions_eq_gt, clausePlaces, Set.mem_Ioi]
  | lt => simp only [satisfiedBy, beq_iff_eq, cmpVersions_eq_lt, clausePlaces, Set.mem_Iio]

/-- What a clause other than `!=` asks for has no holes. -/
theorem ordConnected_clausePlaces {clause : Op × Version} (h : clause.1 ≠ .ne) :
    (clausePlaces clause).OrdConnected := by
  obtain ⟨op, version⟩ := clause
  cases op with
  | any => exact Set.ordConnected_univ
  | ge => exact Set.ordConnected_Ici
  | le => exact Set.ordConnected_Iic
  | ne => exact absurd rfl h
  | eq => exact Set.ordConnected_Icc
  | gt => exact Set.ordConnected_Ioi
  | lt => exact Set.ordConnected_Iio

/-- A group without `!=` is satisfied between two versions that satisfy it. -/
theorem satisfied_between {group : List (Op × Version)} (hgroup : ∀ clause ∈ group, clause.1 ≠ .ne)
    (ha : group.all (satisfiedBy a) = true) (hc : group.all (satisfiedBy c) = true)
    (hab : cmpVersions a b ≠ .gt) (hbc : cmpVersions b c ≠ .gt) :
    group.all (satisfiedBy b) = true := by
  rw [cmpVersions_ne_gt] at hab hbc
  rw [List.all_eq_true] at *
  intro clause hclause
  have hlow := (satisfiedBy_places clause).mp (ha clause hclause)
  have hhigh := (satisfiedBy_places clause).mp (hc clause hclause)
  have hplaces := ordConnected_clausePlaces (hgroup clause hclause)
  exact (satisfiedBy_places clause).mpr (hplaces.out hlow hhigh ⟨hab, hbc⟩)

/-- The comparison of versions is a total preorder, which the ranges of `parse_spec` rest on. -/
theorem cmpVersions_preorder (limits : Limits) :
    (∀ a b, cmpVersions a b = (cmpVersions b a).swap) ∧
    (∀ a b c, cmpVersions a b ≠ .gt → cmpVersions b c ≠ .gt → cmpVersions a c ≠ .gt) ∧
    (∀ a b, cmpVersions a b = .eq ↔
      withoutTrailingZeros a.nums = withoutTrailingZeros b.nums ∧ a.tag = b.tag) ∧
    ∀ spec groups, parseSpec limits spec = some groups → ∀ group ∈ groups,
      (∀ clause ∈ group, clause.1 ≠ .ne) → ∀ a b c,
        group.all (satisfiedBy a) = true → group.all (satisfiedBy c) = true →
          cmpVersions a b ≠ .gt → cmpVersions b c ≠ .gt → group.all (satisfiedBy b) = true := by
  refine ⟨cmpVersions_swap, fun _ _ _ => cmpVersions_trans, fun _ _ => cmpVersions_eq_iff, ?_⟩
  intro spec groups _ group _ hgroup a b c ha hc hab hbc
  exact satisfied_between hgroup ha hc hab hbc

/-- The group `>=18,<20.1`: between 18.2 and 19 is 18.19.1. -/
theorem cmpVersions_preorder_between :
    [(Op.ge, (⟨[18, 0, 0], none⟩ : Version)), (Op.lt, ⟨[20, 1], none⟩)].all
      (satisfiedBy ⟨[18, 19, 1], none⟩) = true :=
  (cmpVersions_preorder ⟨1000, 4300⟩).2.2.2 ">=18,<20.1"
    [[(.ge, ⟨[18, 0, 0], none⟩), (.lt, ⟨[20, 1], none⟩)]] (by decide +kernel) _
    (List.mem_singleton_self _) (by decide) ⟨[18, 2], none⟩ _ ⟨[19], none⟩
    (by decide) (by decide) (by decide) (by decide)

end DevRepro.Core
