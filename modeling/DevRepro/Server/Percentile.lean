import DevRepro.Lib.Sorting
import DevRepro.Server.Onboarding
import Mathlib.Algebra.Order.Round
import Mathlib.Data.Rat.Floor

/-!
# Percentiles

`_percentile` of `server/analytics.py`, over rationals.  What it returns is the element of
the nearest rank: `percentile_nearest_rank`.  The percentiles of `onboarding_stats` are
these, in microseconds: `percentile_eq`.
-/

namespace DevRepro.Server

open DevRepro.Lib

/-- `_percentile` -/
def percentileOf (values : List ℚ) (fraction : ℚ) : ℚ :=
  if values = [] then 0
  else
    let ordered := ascending values
    let rank : ℤ := ⌈fraction * ordered.length⌉
    let index : ℤ := max 0 (min (ordered.length - 1) (rank - 1))
    ordered.getD index.toNat 0

variable {values : List ℚ} {fraction : ℚ}

/-! ## The rank -/

/-- The rank of a fraction of `n` elements, counted from one. -/
def rankOf (fraction : ℚ) (n : Nat) : Nat := ⌈fraction * n⌉.toNat

theorem rankOf_pos {n : Nat} (hn : 0 < n) (hf : 0 < fraction) : 0 < rankOf fraction n := by
  have hmul : 0 < fraction * n := mul_pos hf (Nat.cast_pos.mpr hn)
  have hceil : 0 < ⌈fraction * n⌉ := Int.ceil_pos.mpr hmul
  unfold rankOf
  omega

theorem rankOf_le {n : Nat} (hf : fraction ≤ 1) : rankOf fraction n ≤ n := by
  have hmul : fraction * n ≤ (n : ℤ) := by
    rw [Int.cast_natCast]
    exact mul_le_of_le_one_left (Nat.cast_nonneg n) hf
  have hceil : ⌈fraction * n⌉ ≤ (n : ℤ) := Int.ceil_le.mpr hmul
  unfold rankOf
  omega

theorem rankOf_mono {other : ℚ} (n : Nat) (h : fraction ≤ other) :
    rankOf fraction n ≤ rankOf other n := by
  have hceil : ⌈fraction * n⌉ ≤ ⌈other * n⌉ :=
    Int.ceil_le_ceil (mul_le_mul_of_nonneg_right h (Nat.cast_nonneg n))
  unfold rankOf
  omega

/-- The clamping never takes effect. -/
theorem percentileOf_eq_getElem (hne : values ≠ []) (hf : 0 < fraction) (hf' : fraction ≤ 1)
    (hk : rankOf fraction values.length - 1 < (ascending values).length) :
    percentileOf values fraction = (ascending values)[rankOf fraction values.length - 1] := by
  have hpos := rankOf_pos (List.length_pos_iff.mpr hne) hf
  have hle := rankOf_le (n := values.length) hf'
  have hindex : (max 0 (min (((ascending values).length : ℤ) - 1)
      (⌈fraction * (ascending values).length⌉ - 1))).toNat = rankOf fraction values.length - 1 := by
    rw [length_ascending]
    unfold rankOf at hpos hle ⊢
    omega
  rw [percentileOf, if_neg hne]
  dsimp only
  rw [hindex, List.getD_eq_getElem _ _ hk]

theorem rankOf_lt_length (hne : values ≠ []) (hf' : fraction ≤ 1) :
    rankOf fraction values.length - 1 < (ascending values).length := by
  have hpos := List.length_pos_iff.mpr hne
  have hle := rankOf_le (n := values.length) hf'
  rw [length_ascending]
  omega

/-! ## Nearest rank -/

/-- The percentile is a value of the list, it has the rank of its fraction, and it depends
on the values alone, monotonically in the fraction and in each value. -/
theorem percentile_nearest_rank (values : List ℚ) (hne : values ≠ []) (fraction : ℚ)
    (hf : 0 < fraction) (hf' : fraction ≤ 1) :
    percentileOf values fraction ∈ values ∧
    ⌈fraction * values.length⌉ ≤
      ((values.countP fun v => decide (v ≤ percentileOf values fraction) : Nat) : ℤ) ∧
    ((values.countP fun v => decide (v < percentileOf values fraction) : Nat) : ℚ) <
      fraction * values.length ∧
    (∀ other, other.Perm values → percentileOf other fraction = percentileOf values fraction) ∧
    (∀ larger, fraction ≤ larger → larger ≤ 1 →
      percentileOf values fraction ≤ percentileOf values larger) ∧
    ∀ i, ∀ hi : i < values.length, ∀ v, values[i] ≤ v →
      percentileOf values fraction ≤ percentileOf (values.set i v) fraction := by
  have hk := rankOf_lt_length hne hf'
  have hpos := rankOf_pos (List.length_pos_iff.mpr hne) hf
  have heq := percentileOf_eq_getElem hne hf hf' hk
  refine ⟨?_, ?_, ?_, fun other hperm => ?_, fun larger hlarger hlarger' => ?_, fun i hi v hv => ?_⟩
  · rw [heq]
    exact (ascending_perm values).mem_iff.mp (List.getElem_mem hk)
  · have hcount := (getElem_le_iff hk).mp heq.ge
    unfold rankOf at hpos hcount
    omega
  · have hcount := (le_getElem_iff hk).mp heq.le
    have hlt : ((values.countP fun v => decide (v < percentileOf values fraction) : Nat) : ℤ) <
        ⌈fraction * values.length⌉ := by
      unfold rankOf at hpos hcount
      omega
    exact_mod_cast Int.lt_ceil.mp hlt
  · have hother : other ≠ [] := fun hnil => hne (List.perm_nil.mp (hnil ▸ hperm.symm))
    simp only [percentileOf, if_neg hne, if_neg hother, ascending_eq_of_perm hperm]
  · have hk' := rankOf_lt_length hne hlarger'
    rw [heq, percentileOf_eq_getElem hne (hf.trans_le hlarger) hlarger' hk']
    have hrank := rankOf_mono values.length hlarger
    exact getElem_mono (by omega) hk'
  · have hset : values.set i v ≠ [] := by simpa using hne
    have hk' := rankOf_lt_length hset hf'
    rw [heq, percentileOf_eq_getElem hset hf hf' hk']
    simp only [List.length_set] at hk' ⊢
    exact getElem_le_set hi hv hk _

/-- Six machines: the slowest one is the ninth tenth. -/
theorem percentile_nearest_rank_six :
    percentileOf [21, 1, 2, 3, 1, 2] (9 / 10) ∈ ([21, 1, 2, 3, 1, 2] : List ℚ) :=
  (percentile_nearest_rank [21, 1, 2, 3, 1, 2] (List.cons_ne_nil _ _) (9 / 10)
    (by norm_num) (by norm_num)).1

/-! ## Durations -/

theorem rankOf_div (num den n : Nat) (hden : 0 < den) :
    rankOf (num / den) n = (num * n + den - 1) / den := by
  set rank := (num * n + den - 1) / den with hrank
  have hdiv := Nat.div_add_mod (num * n + den - 1) den
  have hmod := Nat.mod_lt (num * n + den - 1) hden
  rw [← hrank] at hdiv
  have hden' : (0 : ℚ) < den := Nat.cast_pos.mpr hden
  have hlower : num * n ≤ rank * den := by
    rw [Nat.mul_comm rank]
    omega
  have hupper : rank * den < num * n + den := by
    rw [Nat.mul_comm rank]
    omega
  have hceil : ⌈(num : ℚ) / den * n⌉ = (rank : ℤ) := by
    rw [Int.ceil_eq_iff, div_mul_eq_mul_div, lt_div_iff₀ hden', div_le_iff₀ hden', sub_one_mul,
      sub_lt_iff_lt_add]
    constructor
    · exact_mod_cast hupper
    · exact_mod_cast hlower
  rw [rankOf, hceil, Int.toNat_natCast]

/-- The percentile of durations in microseconds is the percentile of the rationals. -/
theorem percentile_eq (durations : List Int) (hne : durations ≠ []) (num den : Nat) (hnum : 0 < num)
    (hle : num ≤ den) :
    (percentile durations num den : ℚ) =
      percentileOf (durations.map fun d : Int => (d : ℚ)) (num / den) := by
  have hden : 0 < den := hnum.trans_le hle
  have hfraction : (0 : ℚ) < num / den := div_pos (Nat.cast_pos.mpr hnum) (Nat.cast_pos.mpr hden)
  have hone : (num : ℚ) / den ≤ 1 := div_le_one_of_le₀ (Nat.cast_le.mpr hle) (Nat.cast_nonneg den)
  have hne' : (durations.map fun d : Int => (d : ℚ)) ≠ [] := by simpa using hne
  have hsorted : ascending (durations.map fun d : Int => (d : ℚ)) =
      (ascending durations).map fun d : Int => (d : ℚ) := by
    refine (List.map_mergeSort fun a _ b _ => ?_).symm
    exact decide_eq_decide.mpr Int.cast_le.symm
  have hk := rankOf_lt_length hne' hone
  have hpos := rankOf_pos (List.length_pos_iff.mpr hne') hfraction
  have hrank := rankOf_div num den durations.length hden
  rw [percentileOf_eq_getElem hne' hfraction hone hk]
  simp only [List.length_map, hsorted, length_ascending] at hk hpos hrank ⊢
  rw [List.getElem_map, Int.cast_inj]
  have hindex : min ((ascending durations).length - 1)
      ((num * (ascending durations).length + den - 1) / den - 1) =
        rankOf (num / den) durations.length - 1 := by
    rw [length_ascending, ← hrank]
    omega
  show (ascending durations).getD (min ((ascending durations).length - 1)
    ((num * (ascending durations).length + den - 1) / den - 1)) 0 = _
  rw [hindex, List.getD_eq_getElem _ _ (by rw [length_ascending]; exact hk)]

end DevRepro.Server
