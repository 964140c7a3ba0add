import DevRepro.Core.VersionText

/-!
# What a bound is rewritten to

`_partial_clauses` takes a bound of three numbers as it stands, and a shorter one as the
interval that the comparison makes of it.
-/

namespace DevRepro.Core

open DevRepro.Python DevRepro.Lib

variable {limits : Limits}

/-! ## The steps of the rewriting -/

/-- `SpecClause(op or "==", Version(ver_text))` -/
def exactly (limits : Limits) (op : Option Op) (text : Str) : Option (List (Op × Version)) :=
  (parseVersion limits text).map fun version => [(op.getD .eq, version)]

/-- `Version(f"{major}.{minor or 0}.0")` -/
def lowerEnd (limits : Limits) (major : Nat) (minor : Option Str) : Option Version := do
  let text ← numberText limits major
  parseVersion limits (text ++ lit "." ++ minor.getD (lit "0") ++ lit ".0")

/-- `Version(f"{major + 1}.0.0")` -/
def upperEnd (limits : Limits) (major : Nat) : Option Version := do
  let text ← numberText limits (major + 1)
  parseVersion limits (text ++ lit ".0.0")

/-- The clauses for a bound without a third number. -/
def rewritten (limits : Limits) (op : Option Op) (text : Str) (major : Nat) (minor : Option Str) :
    Option (List (Op × Version)) :=
  match op with
  | some .lt | some .le =>
    if minor.isNone then (upperEnd limits major).map fun version => [(.lt, version)]
    else exactly limits op text
  | some .gt | some .ge => (lowerEnd limits major minor).map fun version => [(.ge, version)]
  | none | some .any | some .eq => do
    let low ← lowerEnd limits major minor
    let high ← upperEnd limits major
    return [(.ge, low), (.lt, high)]
  | some .ne => exactly limits (some .ne) text

/-- The texts of the first three numbers, as far as they are there, and what is behind the first. -/
def threeParts (text : Str) : Str × Option Str × Option Str :=
  let (major, behind) := leadingDigits text
  let (minor, behind) := dottedDigits behind
  (major, minor, (dottedDigits behind).1)

theorem partialClauses_eq (limits : Limits) (op : Option Op) (text : Str) :
    partialClauses limits op text =
      if (threeParts text).1 = [] then exactly limits op text
      else
        (digitsOf limits (threeParts text).1).bind fun major =>
          if (threeParts text).2.1.isSome && (threeParts text).2.2.isSome then exactly limits op text
          else rewritten limits op text major (threeParts text).2.1 := by
  unfold partialClauses threeParts rewritten exactly lowerEnd upperEnd
  rfl

/-- A comparison is written without spaces, bars and commas. -/
theorem opText_chars {written : Str} (h : written ∈ [] :: opTexts.map (·.1)) :
    ∀ c ∈ written, isSpace c = false ∧ c ≠ codePoint '|' ∧ c ≠ codePoint ',' := by
  have hall : (([] :: opTexts.map (·.1)).all fun w => w.all fun c =>
      !isSpace c && c != codePoint '|' && c != codePoint ',') = true := by decide +kernel
  intro c hc
  have hchar := List.all_eq_true.mp (List.all_eq_true.mp hall _ h) c hc
  simpa [and_assoc] using hchar

/-! ## The numbers of a bound -/

theorem leadingDigits_number {a rest : Str} (ha : IsNumber a)
    (hrest : ∀ c ∈ rest.head?, digitValue? c = none) : leadingDigits (a ++ rest) = (a, rest) := by
  have htake : rest.takeWhile (fun c => (digitValue? c).isSome) = [] := by
    cases rest with
    | nil => rfl
    | cons c rest => rw [List.takeWhile_cons_of_neg (by simp [hrest c rfl])]
  have hdrop : rest.dropWhile (fun c => (digitValue? c).isSome) = rest := by
    cases rest with
    | nil => rfl
    | cons c rest => rw [List.dropWhile_cons_of_neg (by simp [hrest c rfl])]
  unfold leadingDigits
  rw [List.takeWhile_append_of_pos ha.2, List.dropWhile_append_of_pos ha.2, htake, hdrop,
    List.append_nil]

theorem dottedDigits_number {b rest : Str} (hb : IsNumber b)
    (hrest : ∀ c ∈ rest.head?, digitValue? c = none) :
    dottedDigits (codePoint '.' :: (b ++ rest)) = (some b, rest) := by
  unfold dottedDigits
  dsimp only
  rw [leadingDigits_number hb hrest]
  exact if_pos ⟨rfl, hb.1⟩

theorem dot_head (rest : Str) : ∀ c ∈ (codePoint '.' :: rest).head?, digitValue? c = none := by
  intro c hc
  rw [← Option.some_inj.mp hc]
  exact dot_not_digit

theorem threeParts_one {a : Str} (ha : IsNumber a) : threeParts a = (a, none, none) := by
  have h := @leadingDigits_number a [] ha (by simp)
  rw [List.append_nil] at h
  unfold threeParts
  rw [h]
  rfl

theorem threeParts_two {a b : Str} (ha : IsNumber a) (hb : IsNumber b) :
    threeParts (a ++ codePoint '.' :: b) = (a, some b, none) := by
  have h := @dottedDigits_number b [] hb (by simp)
  rw [List.append_nil] at h
  unfold threeParts
  rw [leadingDigits_number ha (dot_head b)]
  dsimp only
  rw [h]
  rfl

theorem threeParts_three {a b c rest : Str} (ha : IsNumber a) (hb : IsNumber b) (hc : IsNumber c)
    (hrest : ∀ d ∈ rest.head?, digitValue? d = none) :
    threeParts (a ++ codePoint '.' :: (b ++ codePoint '.' :: (c ++ rest))) =
      (a, some b, some c) := by
  unfold threeParts
  rw [leadingDigits_number ha (dot_head _)]
  dsimp only
  rw [dottedDigits_number hb (dot_head _)]
  dsimp only
  rw [dottedDigits_number hc hrest]

/-! ## The ends of an interval -/

theorem parse_three (limits : Limits) {a b c : Str} (ha : IsNumber a) (hb : IsNumber b) (hc : IsNumber c) :
    parseVersion limits (a ++ lit "." ++ b ++ lit "." ++ c) =
      if a.length ≤ limits.intDigits ∧ b.length ≤ limits.intDigits ∧ c.length ≤ limits.intDigits then
        some (release [numberOf a, numberOf b, numberOf c]) else none := by
  have h := Dotted.parseVersion_text
    ⟨[a, b, c], List.cons_ne_nil _ _, by simp [ha, hb, hc]⟩ limits
  have htext : join "." [a, b, c] = a ++ lit "." ++ b ++ lit "." ++ c := by
    simp [join]
  rw [Dotted.text, htext] at h
  rw [h]
  simp [Dotted.nums]

theorem zero_isNumber : IsNumber (lit "0") := by
  refine ⟨by decide, fun c hc => ?_⟩
  obtain rfl : c = codePoint '0' := by simpa [lit] using hc
  decide

theorem numberOf_zero : numberOf (lit "0") = 0 := by decide

/-- The lower end can be read if both numbers can be written. -/
theorem lowerEnd_eq (limits : Limits) (major : Nat) {minor : Option Str}
    (hminor : ∀ b ∈ minor, IsNumber b) :
    lowerEnd limits major minor =
      if (natStr major).length ≤ limits.intDigits ∧
          ∀ b ∈ minor, b.length ≤ limits.intDigits then
        some (release [major, (minor.map numberOf).getD 0, 0]) else none := by
  have hpos : (natStr major).length ≤ limits.intDigits → 1 ≤ limits.intDigits := fun h =>
    (List.length_pos_of_ne_nil (natStr_ne_nil major)).trans_le h
  have hone : (lit "0").length = 1 := rfl
  have hb : IsNumber (minor.getD (lit "0")) := by
    cases minor with
    | none => exact zero_isNumber
    | some b => exact hminor b rfl
  have hread := parse_three limits (natStr_isNumber major) hb zero_isNumber
  have htext : natStr major ++ lit "." ++ minor.getD (lit "0") ++ lit ".0" =
      natStr major ++ lit "." ++ minor.getD (lit "0") ++ lit "." ++ lit "0" := by
    simp [lit]
  unfold lowerEnd numberText fitsDigits
  by_cases hfits : (natStr major).length ≤ limits.intDigits
  · rw [if_pos (by simpa using hfits), Option.bind_eq_bind, Option.bind_some, htext, hread,
      numberOf_natStr, numberOf_zero, hone]
    cases minor with
    | none => simp [hfits, hpos hfits, numberOf_zero, hone]
    | some b => simp [hfits, hpos hfits]
  · rw [if_neg (by simpa using hfits), if_neg fun h => hfits h.1]
    rfl

theorem upperEnd_eq (limits : Limits) (major : Nat) :
    upperEnd limits major =
      if (natStr (major + 1)).length ≤ limits.intDigits then some (release [major + 1, 0, 0])
      else none := by
  have h := @lowerEnd_eq limits (major + 1) none (by simp)
  have htext : ∀ text : Str, text ++ lit "." ++ lit "0" ++ lit ".0" = text ++ lit ".0.0" := by
    intro text
    simp [lit]
  unfold lowerEnd at h
  simp only [Option.getD_none, htext] at h
  unfold upperEnd
  rw [h]
  simp

/-! ## Bounds -/

/-- A bound of one, two or three numbers. -/
structure Bound extends Dotted where
  few : parts.length ≤ 3

/-- No number of the bound, nor the next major version that its interval ends at, has more
digits than `int` takes. -/
def Bound.Readable (limits : Limits) (v : Bound) : Prop :=
  (∀ part ∈ v.parts, part.length ≤ limits.intDigits) ∧
    (v.parts.length < 3 → (natStr (v.nums.getD 0 0 + 1)).length ≤ limits.intDigits)

instance (v : Bound) : Decidable (v.Readable limits) :=
  inferInstanceAs (Decidable (_ ∧ _))

/-- The clauses that a comparison makes of the numbers of a bound. -/
def clausesOf (op : Option Op) (nums : List Nat) : List (Op × Version) :=
  match nums with
  | [a] =>
    match op with
    | some .lt | some .le => [(.lt, release [a + 1, 0, 0])]
    | some .gt | some .ge => [(.ge, release [a, 0, 0])]
    | none | some .any | some .eq => [(.ge, release [a, 0, 0]), (.lt, release [a + 1, 0, 0])]
    | some .ne => [(.ne, release [a])]
  | [a, b] =>
    match op with
    | some .gt | some .ge => [(.ge, release [a, b, 0])]
    | none | some .any | some .eq => [(.ge, release [a, b, 0]), (.lt, release [a + 1, 0, 0])]
    | some .lt => [(.lt, release [a, b])]
    | some .le => [(.le, release [a, b])]
    | some .ne => [(.ne, release [a, b])]
  | _ => [(op.getD .eq, release nums)]

theorem Bound.parts_cases (v : Bound) :
    (∃ a, v.parts = [a] ∧ v.nums = [numberOf a] ∧ IsNumber a ∧ v.text = a) ∨
      (∃ a b, v.parts = [a, b] ∧ v.nums = [numberOf a, numberOf b] ∧ IsNumber a ∧ IsNumber b ∧
        v.text = a ++ codePoint '.' :: b) ∨
      ∃ a b c, v.parts = [a, b, c] ∧ v.nums = [numberOf a, numberOf b, numberOf c] ∧
        IsNumber a ∧ IsNumber b ∧ IsNumber c ∧
          v.text = a ++ codePoint '.' :: (b ++ codePoint '.' :: (c ++ [])) := by
  obtain ⟨⟨parts, hne, hnumbers⟩, hfew⟩ := v
  unfold Dotted.text
  rcases parts with _ | ⟨a, _ | ⟨b, _ | ⟨c, _ | ⟨d, rest⟩⟩⟩⟩
  · exact absurd rfl hne
  · exact Or.inl ⟨a, rfl, rfl, hnumbers a (by simp), rfl⟩
  · exact Or.inr (Or.inl ⟨a, b, rfl, rfl, hnumbers a (by simp), hnumbers b (by simp),
      by simp [join, lit]⟩)
  · exact Or.inr (Or.inr ⟨a, b, c, rfl, rfl, hnumbers a (by simp), hnumbers b (by simp),
      hnumbers c (by simp), by simp [join, lit]⟩)
  · simp only [List.length_cons] at hfew
    omega

theorem exactly_bound {v : Bound} (h : ∀ part ∈ v.parts, part.length ≤ limits.intDigits)
    (op : Option Op) : exactly limits op v.text = some [(op.getD .eq, release v.nums)] := by
  unfold exactly
  rw [v.parseVersion_text, if_pos h]
  rfl

theorem digitsOf_some {a : Str} (ha : IsNumber a) (h : a.length ≤ limits.intDigits) :
    digitsOf limits a = some (numberOf a) := by
  rw [digitsOf_number ha, if_neg (not_lt.mpr h)]

/-- What a readable bound is rewritten to. -/
theorem partialClauses_bound {v : Bound} (h : v.Readable limits) (op : Option Op) :
    partialClauses limits op v.text = some (clausesOf op v.nums) := by
  obtain ⟨hlengths, hnext⟩ := h
  have hexactly := exactly_bound hlengths
  have hfits : ∀ {a}, IsNumber a → a.length ≤ limits.intDigits →
      (natStr (numberOf a)).length ≤ limits.intDigits := fun ha hlen =>
    (length_natStr_numberOf ha).trans hlen
  rw [partialClauses_eq]
  rcases v.parts_cases with ⟨a, hparts, hnums, ha, htext⟩ | ⟨a, b, hparts, hnums, ha, hb, htext⟩ |
    ⟨a, b, c, hparts, hnums, ha, hb, hc, htext⟩
  · have hlen : a.length ≤ limits.intDigits := hlengths a (by simp [hparts])
    have hupper := upperEnd_eq limits (numberOf a)
    have hlower := @lowerEnd_eq limits (numberOf a) none (by simp)
    rw [hnums, hparts] at hnext
    have hfit : (natStr (numberOf a + 1)).length ≤ limits.intDigits := hnext (by simp)
    rw [if_pos hfit] at hupper
    rw [if_pos ⟨hfits ha hlen, by simp⟩] at hlower
    rw [hnums] at hexactly ⊢
    rw [htext] at hexactly ⊢
    rw [threeParts_one ha, if_neg ha.1, digitsOf_some ha hlen]
    cases op with
    | none => simp [rewritten, clausesOf, hupper, hlower]
    | some op => cases op <;> simp [rewritten, clausesOf, hupper, hlower, hexactly]
  · have hlen : a.length ≤ limits.intDigits := hlengths a (by simp [hparts])
    have hupper := upperEnd_eq limits (numberOf a)
    have hlower := @lowerEnd_eq limits (numberOf a) (some b) (by simpa using hb)
    rw [hnums, hparts] at hnext
    have hfit : (natStr (numberOf a + 1)).length ≤ limits.intDigits := hnext (by simp)
    rw [if_pos hfit] at hupper
    rw [if_pos ⟨hfits ha hlen, by simpa using hlengths b (by simp [hparts])⟩] at hlower
    rw [hnums] at hexactly ⊢
    rw [htext] at hexactly ⊢
    rw [threeParts_two ha hb, if_neg ha.1, digitsOf_some ha hlen]
    cases op with
    | none => simp [rewritten, clausesOf, hupper, hlower]
    | some op => cases op <;> simp [rewritten, clausesOf, hupper, hlower, hexactly]
  · have hthree := @threeParts_three a b c [] ha hb hc (by simp)
    rw [← htext] at hthree
    rw [hthree, if_neg ha.1, digitsOf_some ha (hlengths a (by simp [hparts])), hexactly, hnums]
    rfl

/-- A bound that cannot be read ends an equality with a `ValueError`. -/
theorem partialClauses_unreadable {v : Bound} (h : ¬v.Readable limits) {op : Option Op}
    (hop : op = none ∨ op = some .eq) : partialClauses limits op v.text = none := by
  have hparse := v.parseVersion_text limits
  have hlast : ∀ text major minor, upperEnd limits major = none →
      rewritten limits op text major minor = none := by
    intro text major minor hupper
    rcases hop with rfl | rfl <;> cases hlow : lowerEnd limits major minor <;>
      simp [rewritten, hlow, hupper]
  have hfirst : ∀ text major minor, lowerEnd limits major minor = none →
      rewritten limits op text major minor = none := by
    intro text major minor hlower
    rcases hop with rfl | rfl <;> simp [rewritten, hlower]
  unfold Bound.Readable at h
  rw [partialClauses_eq]
  rcases v.parts_cases with ⟨a, hparts, hnums, ha, htext⟩ | ⟨a, b, hparts, hnums, ha, hb, htext⟩ |
    ⟨a, b, c, hparts, hnums, ha, hb, hc, htext⟩
  · rw [hnums, hparts] at h
    rw [htext, threeParts_one ha, if_neg ha.1, digitsOf_number ha]
    by_cases hlen : a.length ≤ limits.intDigits
    · have hnext : ¬(natStr (numberOf a + 1)).length ≤ limits.intDigits := by
        simpa [hlen] using h
      rw [if_neg (not_lt.mpr hlen)]
      exact hlast _ _ _ ((upperEnd_eq limits _).trans (if_neg hnext))
    · rw [if_pos (not_le.mp hlen)]
      rfl
  · rw [hnums, hparts] at h
    rw [htext, threeParts_two ha hb, if_neg ha.1, digitsOf_number ha]
    by_cases hlen : a.length ≤ limits.intDigits
    · rw [if_neg (not_lt.mpr hlen)]
      by_cases hminor : b.length ≤ limits.intDigits
      · have hnext : ¬(natStr (numberOf a + 1)).length ≤ limits.intDigits := by
          simpa [hlen, hminor] using h
        exact hlast _ _ _ ((upperEnd_eq limits _).trans (if_neg hnext))
      · exact hfirst _ _ _ ((lowerEnd_eq limits _ (by simpa using hb)).trans
          (if_neg fun hfit => hminor (hfit.2 b rfl)))
    · rw [if_pos (not_le.mp hlen)]
      rfl
  · have hlengths : ¬∀ part ∈ v.parts, part.length ≤ limits.intDigits := by
      intro hall
      exact h ⟨hall, fun hlt => absurd hlt (by simp [hparts])⟩
    rw [if_neg hlengths] at hparse
    have hthree := @threeParts_three a b c [] ha hb hc (by simp)
    rw [← htext] at hthree
    rw [hthree, if_neg ha.1, digitsOf_number ha]
    by_cases hlen : limits.intDigits < a.length
    · rw [if_pos hlen]
      rfl
    · rw [if_neg hlen]
      show exactly limits op v.text = none
      rw [exactly, hparse]
      rfl

end DevRepro.Core
