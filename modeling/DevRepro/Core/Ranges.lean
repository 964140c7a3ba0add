import DevRepro.Core.Bounds

/-!
# Ranges of one clause

What `satisfies` says of a version without a tag and a comparison with a bound, next to
what the comparison means.
-/

namespace DevRepro.Core

open DevRepro.Python DevRepro.Lib

variable {limits : Limits}

/-! ## One clause -/

theorem parseSpec_single {s : Str} (hbar : codePoint '|' ∉ s) (hcomma : codePoint ',' ∉ s) :
    parseSpec limits s = (parseClause limits s).map fun clauses =>
      if clauses = [] then [[(.any, release [0])]] else [clauses] := by
  have hsplit : s.splitOn (codePoint ',') = [s] := List.splitOn_eq_singleton hcomma
  unfold parseSpec
  rw [splitGroups_single hbar]
  simp only [List.mapM_cons, List.mapM_nil, hsplit]
  cases parseClause limits s with
  | none => rfl
  | some clauses => cases clauses <;> simp [release]

/-- A bare bound, and one behind each comparison. -/
def comparisons : List (Str × Option Op) :=
  ([], none) :: opTexts.map fun (written, op) => (written, some op)

theorem clauseParts_comparison {written : Str} {op : Option Op} {s : Str}
    (h : (written, op) ∈ comparisons) (hs : Plain s) :
    clauseParts (written ++ s) = some (op, s) := by
  rcases List.mem_cons.mp h with h | h
  · obtain ⟨rfl, rfl⟩ := Prod.mk.inj h
    exact clauseParts_bare hs
  · obtain ⟨⟨text, o⟩, hmem, heq⟩ := List.mem_map.mp h
    obtain ⟨rfl, rfl⟩ := Prod.mk.inj heq
    exact clauseParts_op hmem hs

theorem mem_opTexts_of_comparison {written : Str} {op : Option Op}
    (h : (written, op) ∈ comparisons) : written ∈ [] :: opTexts.map (·.1) := by
  have htexts : comparisons.map (·.1) = [] :: opTexts.map (·.1) := rfl
  rw [← htexts]
  exact List.mem_map_of_mem h

theorem satisfies_bound {written : Str} {op : Option Op} (h : (written, op) ∈ comparisons)
    (v : Bound) (x : Str) :
    satisfies limits x (written ++ v.text) =
      (partialClauses limits op v.text).bind fun clauses =>
        (parseVersion limits x).map fun candidate =>
          (if clauses = [] then [(.any, release [0])] else clauses).all (satisfiedBy candidate) := by
  obtain ⟨c, rest, htext, hc⟩ := v.text_cons
  have hchars := opText_chars (mem_opTexts_of_comparison h)
  have hmem : c ∈ written ++ v.text := by simp [htext]
  have hbar : codePoint '|' ∉ written ++ v.text := by
    intro hin
    rcases List.mem_append.mp hin with hin | hin
    · exact (hchars _ hin).2.1 rfl
    · exact v.not_mem_text (by decide) (by decide) hin
  have hcomma : codePoint ',' ∉ written ++ v.text := by
    intro hin
    rcases List.mem_append.mp hin with hin | hin
    · exact (hchars _ hin).2.2 rfl
    · exact v.not_mem_text (by decide) (by decide) hin
  have hstrip : strip (written ++ v.text) = written ++ v.text := by
    refine strip_eq_self fun d hd => ?_
    rcases List.mem_append.mp hd with hd | hd
    · exact (hchars d hd).1
    · exact v.not_space d hd
  -- none of the texts that stand for every version has a digit
  have hany : written ++ v.text ∉ [lit "*", [], lit "any"] := by
    have hnone : ([lit "*", [], lit "any"].all fun s =>
        s.all fun d => decide (digitValue? d = none)) = true := by decide
    intro hin
    have hdigit := List.all_eq_true.mp (List.all_eq_true.mp hnone _ hin) c hmem
    rw [decide_eq_true_eq] at hdigit
    exact digit_ne hc hdigit rfl
  have hclause : parseClause limits (written ++ v.text) = partialClauses limits op v.text := by
    unfold parseClause
    rw [hstrip]
    dsimp only
    rw [if_neg fun heq => hany (by simp [heq]), if_neg fun heq => hany (by simp [heq]),
      clauseParts_comparison h v.plain]
    rfl
  unfold satisfies
  rw [hstrip, if_neg hany, parseSpec_single hbar hcomma, hclause]
  cases partialClauses limits op v.text with
  | none => rfl
  | some clauses =>
    cases parseVersion limits x with
    | none => rfl
    | some candidate => cases clauses <;> simp

theorem clausesOf_ne_nil (op : Option Op) (nums : List Nat) : clausesOf op nums ≠ [] := by
  unfold clausesOf
  split
  · split <;> exact List.cons_ne_nil _ _
  · split <;> exact List.cons_ne_nil _ _
  · exact List.cons_ne_nil _ _

theorem satisfies_readable {written : Str} {op : Option Op} (h : (written, op) ∈ comparisons)
    {v : Bound} (hv : v.Readable limits) {x : Str} {candidate : Version}
    (hx : parseVersion limits x = some candidate) :
    satisfies limits x (written ++ v.text) =
      some ((clausesOf op v.nums).all (satisfiedBy candidate)) := by
  rw [satisfies_bound h, partialClauses_bound hv, hx]
  simp [clausesOf_ne_nil]

theorem satisfies_unreadable {written : Str} {op : Option Op} (h : (written, op) ∈ comparisons)
    (hop : op = none ∨ op = some .eq) {v : Bound} (hv : ¬v.Readable limits) (x : Str) :
    satisfies limits x (written ++ v.text) = none := by
  rw [satisfies_bound h, partialClauses_unreadable hv hop]
  rfl

/-! ## What a clause means -/

theorem satisfiedBy_iff (candidate bound : Version) (op : Op) :
    satisfiedBy candidate (op, bound) = true ↔
      match op with
      | .any => True
      | .ge => place bound ≤ place candidate
      | .le => place candidate ≤ place bound
      | .ne => place candidate ≠ place bound
      | .eq => place candidate = place bound
      | .gt => place bound < place candidate
      | .lt => place candidate < place bound := by
  have h := cmpVersions_compares candidate bound
  cases op with
  | any => exact iff_of_true rfl trivial
  | ge => simpa [satisfiedBy] using h.ne_lt
  | le => simpa [satisfiedBy] using h.ne_gt
  | ne => simpa [satisfiedBy] using not_congr h.eq_eq
  | eq => simpa [satisfiedBy] using h.eq_eq
  | gt => simpa [satisfiedBy] using h.eq_gt
  | lt => simpa [satisfiedBy] using h.eq_lt

theorem padded_lt_one {xs : List Nat} {a : Nat} : padded xs < padded [a] ↔ xs.getD 0 0 < a := by
  rw [padded_lt_cons]
  simp

theorem padded_one_zeros (a : Nat) : padded [a, 0, 0] = padded [a] := padded_append_zeros [a] 2

theorem padded_two_zero (a b : Nat) : padded [a, b, 0] = padded [a, b] :=
  padded_append_zeros [a, b] 1

theorem release_le_iff {xs ys : List Nat} :
    place (release ys) ≤ place (release xs) ↔ ¬padded xs < padded ys := by
  rw [← not_lt, release_lt_iff]

/-- Whether the clauses of a comparison take a version without a tag. -/
def accepts (op : Option Op) (nums xs : List Nat) : Bool :=
  (clausesOf op nums).all (satisfiedBy (release xs))

section Meaning

variable {xs : List Nat} {a b c : Nat}

theorem accepts_lt_one : accepts (some .lt) [a] xs = true ↔ xs.getD 0 0 ≤ a := by
  simp [accepts, clausesOf, satisfiedBy_iff, release_lt_iff, padded_one_zeros, padded_lt_one]

theorem accepts_le_one : accepts (some .le) [a] xs = true ↔ xs.getD 0 0 ≤ a := accepts_lt_one

theorem accepts_ge_one : accepts (some .ge) [a] xs = true ↔ a ≤ xs.getD 0 0 := by
  simp [accepts, clausesOf, satisfiedBy_iff, release_le_iff, padded_one_zeros, padded_lt_one]

theorem accepts_gt_one : accepts (some .gt) [a] xs = true ↔ a ≤ xs.getD 0 0 := accepts_ge_one

theorem accepts_eq_one : accepts (some .eq) [a] xs = true ↔ xs.getD 0 0 = a := by
  have h : accepts (some .eq) [a] xs = true ↔ a ≤ xs.getD 0 0 ∧ xs.getD 0 0 < a + 1 := by
    simp [accepts, clausesOf, satisfiedBy_iff, release_le_iff, release_lt_iff, padded_one_zeros,
      padded_lt_one]
  rw [h]
  omega

theorem accepts_ne_one : accepts (some .ne) [a] xs = true ↔ padded xs ≠ padded [a] := by
  simp [accepts, clausesOf, satisfiedBy_iff, release_eq_iff]

theorem accepts_lt_two : accepts (some .lt) [a, b] xs = true ↔ padded xs < padded [a, b] := by
  simp [accepts, clausesOf, satisfiedBy_iff, release_lt_iff]

theorem accepts_le_two : accepts (some .le) [a, b] xs = true ↔ ¬padded [a, b] < padded xs := by
  simp [accepts, clausesOf, satisfiedBy_iff, release_le_iff]

theorem accepts_ge_two : accepts (some .ge) [a, b] xs = true ↔ ¬padded xs < padded [a, b] := by
  simp [accepts, clausesOf, satisfiedBy_iff, release_le_iff, padded_two_zero]

theorem accepts_gt_two : accepts (some .gt) [a, b] xs = true ↔ ¬padded xs < padded [a, b] :=
  accepts_ge_two

theorem accepts_eq_two :
    accepts (some .eq) [a, b] xs = true ↔ ¬padded xs < padded [a, b] ∧ xs.getD 0 0 ≤ a := by
  have h : accepts (some .eq) [a, b] xs = true ↔
      ¬padded xs < padded [a, b, 0] ∧ padded xs < padded [a + 1, 0, 0] := by
    simp [accepts, clausesOf, satisfiedBy_iff, release_le_iff, release_lt_iff]
  rw [h, padded_two_zero a b, padded_one_zeros, padded_lt_one, Nat.lt_succ_iff]

theorem accepts_ne_two : accepts (some .ne) [a, b] xs = true ↔ padded xs ≠ padded [a, b] := by
  simp [accepts, clausesOf, satisfiedBy_iff, release_eq_iff]

theorem accepts_three (op : Op) :
    accepts (some op) [a, b, c] xs = true ↔ satisfiedBy (release xs) (op, release [a, b, c]) = true := by
  simp [accepts, clausesOf]

end Meaning

/-! ## The comparisons among each other -/

/-- Exactly one of `<`, `=` and `>` holds, and `>=`, `<=` and `!=` are the negations of them. -/
def OneOfThree (lt le eq ne gt ge : Bool) : Prop :=
  lt.toNat + eq.toNat + gt.toNat = 1 ∧ ge = !lt ∧ le = !gt ∧ ne = !eq

instance (lt le eq ne gt ge : Bool) : Decidable (OneOfThree lt le eq ne gt ge) :=
  inferInstanceAs (Decidable (_ ∧ _ ∧ _ ∧ _))

theorem oneOfThree_iff {lt le eq ne gt ge : Bool} :
    OneOfThree lt le eq ne gt ge ↔
      (lt = true ∧ ¬eq = true ∧ ¬gt = true ∨ ¬lt = true ∧ eq = true ∧ ¬gt = true ∨
        ¬lt = true ∧ ¬eq = true ∧ gt = true) ∧
        (ge = true ↔ ¬lt = true) ∧ (le = true ↔ ¬gt = true) ∧ (ne = true ↔ ¬eq = true) := by
  revert lt le eq ne gt ge
  decide

/-- The six comparisons with a bound give answers that go together. -/
def Coherent (limits : Limits) (x v : Str) : Prop :=
  ∃ lt le eq ne gt ge, satisfies limits x (lit "<" ++ v) = some lt ∧
    satisfies limits x (lit "<=" ++ v) = some le ∧ satisfies limits x (lit "=" ++ v) = some eq ∧
    satisfies limits x (lit "!=" ++ v) = some ne ∧ satisfies limits x (lit ">" ++ v) = some gt ∧
    satisfies limits x (lit ">=" ++ v) = some ge ∧ OneOfThree lt le eq ne gt ge

theorem coherent_readable {v : Bound} (hv : v.Readable limits) {x : Str} {xs : List Nat}
    (hx : parseVersion limits x = some (release xs)) :
    Coherent limits x v.text ↔
      OneOfThree (accepts (some .lt) v.nums xs) (accepts (some .le) v.nums xs)
        (accepts (some .eq) v.nums xs) (accepts (some .ne) v.nums xs)
        (accepts (some .gt) v.nums xs) (accepts (some .ge) v.nums xs) := by
  unfold Coherent accepts
  rw [satisfies_readable (show (lit "<", some Op.lt) ∈ comparisons by decide) hv hx,
    satisfies_readable (show (lit "<=", some Op.le) ∈ comparisons by decide) hv hx,
    satisfies_readable (show (lit "=", some Op.eq) ∈ comparisons by decide) hv hx,
    satisfies_readable (show (lit "!=", some Op.ne) ∈ comparisons by decide) hv hx,
    satisfies_readable (show (lit ">", some Op.gt) ∈ comparisons by decide) hv hx,
    satisfies_readable (show (lit ">=", some Op.ge) ∈ comparisons by decide) hv hx]
  constructor
  · rintro ⟨lt, le, eq, ne, gt, ge, hlt, hle, heq, hne, hgt, hge, h⟩
    rw [Option.some_inj] at hlt hle heq hne hgt hge
    rwa [hlt, hle, heq, hne, hgt, hge]
  · intro h
    exact ⟨_, _, _, _, _, _, rfl, rfl, rfl, rfl, rfl, rfl, h⟩

/-- Whether the comparisons of a bound with a version go together. -/
def Together (nums xs : List Nat) : Prop :=
  OneOfThree (accepts (some .lt) nums xs) (accepts (some .le) nums xs)
    (accepts (some .eq) nums xs) (accepts (some .ne) nums xs) (accepts (some .gt) nums xs)
    (accepts (some .ge) nums xs)

/-- With one number, `=` and both of its neighbours take the versions of that series. -/
theorem together_one (a : Nat) (xs : List Nat) : Together [a] xs ↔ xs.getD 0 0 ≠ a := by
  have hne : xs.getD 0 0 ≠ a → padded xs ≠ padded [a] := by
    intro h heq
    exact h (padded_eq_cons.mp heq).1
  unfold Together
  rw [oneOfThree_iff, accepts_lt_one, accepts_le_one, accepts_eq_one, accepts_ne_one,
    accepts_gt_one, accepts_ge_one]
  constructor
  · rintro ⟨h, -⟩
    omega
  · intro h
    exact ⟨by omega, by omega, by omega, iff_of_true (hne h) h⟩

/-- With two numbers, `=` and `>` take the versions from the bound to the next major one. -/
theorem together_two (a b : Nat) (xs : List Nat) :
    Together [a, b] xs ↔ padded xs < padded [a, b] ∨ a < xs.getD 0 0 := by
  have hbelow : padded xs < padded [a, b] → xs.getD 0 0 ≤ a := by
    intro h
    rcases padded_lt_cons.mp h with hlt | ⟨heq, -⟩
    · exact le_of_lt hlt
    · exact le_of_eq heq
  have hsame : padded xs = padded [a, b] →
      xs.getD 0 0 = a ∧ ¬padded xs < padded [a, b] ∧ ¬padded [a, b] < padded xs := by
    intro h
    exact ⟨(padded_eq_cons.mp h).1, h ▸ lt_irrefl _, h ▸ lt_irrefl _⟩
  have hasymm : padded xs < padded [a, b] → ¬padded [a, b] < padded xs := fun h => lt_asymm h
  have htotal : padded xs < padded [a, b] ∨ padded xs = padded [a, b] ∨
      padded [a, b] < padded xs := lt_trichotomy _ _
  unfold Together
  rw [oneOfThree_iff, accepts_lt_two, accepts_le_two, accepts_eq_two, accepts_ne_two,
    accepts_gt_two, accepts_ge_two]
  rcases htotal with hlt | heq | hgt
  · have hnot := hasymm hlt
    have hne : padded xs ≠ padded [a, b] := fun h => (hsame h).2.1 hlt
    simp [hlt, hnot, hne]
  · obtain ⟨hfirst, hnlt, hngt⟩ := hsame heq
    have hle : xs.getD 0 0 ≤ a := hfirst.le
    have hnext : ¬a < xs.getD 0 0 := not_lt.mpr hle
    tauto
  · have hnot : ¬padded xs < padded [a, b] := fun h => hasymm h hgt
    have hne : padded xs ≠ padded [a, b] := fun h => (hsame h).2.2 hgt
    by_cases hnext : a < xs.getD 0 0
    · have hle : ¬xs.getD 0 0 ≤ a := not_le.mpr hnext
      tauto
    · have hle : xs.getD 0 0 ≤ a := not_lt.mp hnext
      tauto

theorem together_three (a b c : Nat) (xs : List Nat) : Together [a, b, c] xs := by
  unfold Together
  rw [oneOfThree_iff]
  simp only [accepts_three, satisfiedBy_iff]
  rcases lt_trichotomy (place (release xs)) (place (release [a, b, c])) with hlt | heq | hgt
  · simp [hlt, hlt.ne, hlt.not_gt, hlt.le, hlt.not_ge]
  · simp [heq]
  · simp [hgt, hgt.ne', hgt.not_gt, hgt.le, hgt.not_ge]

/-- Where the six comparisons with a bound go together: the bound can be read, and it has
three numbers, or the version is below it or of a later major version. -/
theorem coherent_iff (v : Bound) {x : Str} {xs : List Nat}
    (hx : parseVersion limits x = some (release xs)) :
    Coherent limits x v.text ↔
      v.Readable limits ∧
        (v.parts.length = 3 ∨ padded xs < padded v.nums ∨ v.nums.getD 0 0 < xs.getD 0 0) := by
  by_cases hv : v.Readable limits
  · rw [coherent_readable hv hx, and_iff_right hv]
    change Together v.nums xs ↔ _
    rcases v.parts_cases with ⟨a, hparts, hnums, -⟩ | ⟨a, b, hparts, hnums, -⟩ |
      ⟨a, b, c, hparts, hnums, -⟩
    · rw [hnums, hparts, together_one, padded_lt_one]
      simp only [List.length_singleton, List.getD_cons_zero]
      omega
    · rw [hnums, hparts, together_two]
      simp
    · rw [hnums, hparts]
      exact iff_of_true (together_three _ _ _ xs) (Or.inl rfl)
  · refine iff_of_false ?_ fun h => hv h.1
    rintro ⟨lt, le, eq, ne, gt, ge, -, -, heq, -⟩
    rw [satisfies_unreadable (show (lit "=", some Op.eq) ∈ comparisons by decide) (Or.inr rfl) hv]
      at heq
    cases heq

/-- The bound `16`. -/
def sixteen : Bound := ⟨⟨["16"], by decide, by decide⟩, by decide⟩

theorem coherent_sixteen : Coherent ⟨1000, 4300⟩ "15.2" "16" := by
  have hx : parseVersion ⟨1000, 4300⟩ "15.2" = some (release [15, 2]) := by decide +kernel
  refine (coherent_iff sixteen hx).mpr ⟨by decide +kernel, Or.inr (Or.inl ?_)⟩
  have hnums : sixteen.nums = [16] := by decide +kernel
  rw [hnums, padded_lt_one]
  decide

/-- `16.5` is below `16`, equal to it and above it. -/
theorem sixteen_overlaps :
    parseVersion ⟨1000, 4300⟩ "16.5" = some (release [16, 5]) ∧
      satisfies ⟨1000, 4300⟩ "16.5" "<16" = some true ∧
      satisfies ⟨1000, 4300⟩ "16.5" "=16" = some true ∧
      satisfies ⟨1000, 4300⟩ "16.5" ">16" = some true ∧ ¬Coherent ⟨1000, 4300⟩ "16.5" "16" := by
  have hlt : satisfies ⟨1000, 4300⟩ "16.5" "<16" = some true := by decide +kernel
  have heq : satisfies ⟨1000, 4300⟩ "16.5" "=16" = some true := by decide +kernel
  have hgt : satisfies ⟨1000, 4300⟩ "16.5" ">16" = some true := by decide +kernel
  refine ⟨by decide +kernel, hlt, heq, hgt, ?_⟩
  rintro ⟨lt, le, eq, ne, gt, ge, hl, -, he, -, hg, -, hone, -⟩
  obtain rfl := Option.some_inj.mp (hlt.symm.trans hl)
  obtain rfl := Option.some_inj.mp (heq.symm.trans he)
  obtain rfl := Option.some_inj.mp (hgt.symm.trans hg)
  exact absurd hone (by decide)

/-! ## Equalities -/

/-- The texts before a bound that ask for its series. -/
def equalityTexts : List Str := [[], "=", "=="]

theorem equalityTexts_mem {written : Str} (h : written ∈ equalityTexts) :
    (written, none) ∈ comparisons ∨ (written, some Op.eq) ∈ comparisons := by
  have hall : ∀ w ∈ equalityTexts, (w, none) ∈ comparisons ∨ (w, some Op.eq) ∈ comparisons := by
    decide
  exact hall written h

/-- The first numbers of the version are those of the bound. -/
def InSeries (nums xs : List Nat) : Prop := ∀ i < nums.length, xs.getD i 0 = nums.getD i 0

instance (nums xs : List Nat) : Decidable (InSeries nums xs) :=
  inferInstanceAs (Decidable (∀ i < nums.length, _))

/-- A bare bound and an equality take the versions of the bound's series and no others. -/
def MatchesSeries (limits : Limits) (x : Str) (xs : List Nat) (v : Bound) : Prop :=
  ∀ written ∈ equalityTexts,
    satisfies limits x (written ++ v.text) = some (decide (InSeries v.nums xs))

theorem matchesSeries_readable {v : Bound} (hv : v.Readable limits) {x : Str} {xs : List Nat}
    (hx : parseVersion limits x = some (release xs)) :
    MatchesSeries limits x xs v ↔ (accepts (some .eq) v.nums xs = true ↔ InSeries v.nums xs) := by
  have hnone : clausesOf none v.nums = clausesOf (some .eq) v.nums := by
    unfold clausesOf
    split <;> rfl
  have hboth : ∀ written ∈ equalityTexts,
      satisfies limits x (written ++ v.text) = some (accepts (some .eq) v.nums xs) := by
    intro written hwritten
    rcases equalityTexts_mem hwritten with h | h
    · rw [satisfies_readable h hv hx, hnone]
      rfl
    · rw [satisfies_readable h hv hx]
      rfl
  constructor
  · intro h
    have heq := (hboth [] (by decide)).symm.trans (h [] (by decide))
    rw [Option.some_inj.mp heq, decide_eq_true_iff]
  · intro h written hwritten
    rw [hboth written hwritten, Option.some_inj, Bool.eq_iff_iff, decide_eq_true_iff, h]

theorem padded_lt_two {xs : List Nat} {a b : Nat} :
    padded xs < padded [a, b] ↔ xs.getD 0 0 < a ∨ xs.getD 0 0 = a ∧ xs.getD 1 0 < b := by
  have htail : xs.tail.getD 0 0 = xs.getD 1 0 := by cases xs <;> rfl
  rw [padded_lt_cons, List.tail_cons, padded_lt_one, htail]
  rfl

theorem inSeries_one {a : Nat} {xs : List Nat} : InSeries [a] xs ↔ xs.getD 0 0 = a := by
  constructor
  · exact fun h => h 0 (by simp)
  · intro h i hi
    obtain rfl : i = 0 := by simpa using hi
    exact h

theorem inSeries_two {a b : Nat} {xs : List Nat} :
    InSeries [a, b] xs ↔ xs.getD 0 0 = a ∧ xs.getD 1 0 = b := by
  constructor
  · exact fun h => ⟨h 0 (by simp), h 1 (by simp)⟩
  · rintro ⟨ha, hb⟩ i hi
    match i, hi with
    | 0, _ => exact ha
    | 1, _ => exact hb

/-- Where a bare bound and an equality take the versions of the series: the bound can be
read, no later minor version of the same major one is at hand for a bound of two numbers,
and no further number other than zero for one of three. -/
theorem matchesSeries_iff (v : Bound) {x : Str} {xs : List Nat}
    (hx : parseVersion limits x = some (release xs)) :
    MatchesSeries limits x xs v ↔
      v.Readable limits ∧
        (v.parts.length = 2 → xs.getD 0 0 = v.nums.getD 0 0 → xs.getD 1 0 ≤ v.nums.getD 1 0) ∧
        (v.parts.length = 3 → InSeries v.nums xs → ∀ i ≥ 3, xs.getD i 0 = 0) := by
  by_cases hv : v.Readable limits
  · rw [matchesSeries_readable hv hx, and_iff_right hv]
    rcases v.parts_cases with ⟨a, hparts, hnums, -⟩ | ⟨a, b, hparts, hnums, -⟩ |
      ⟨a, b, c, hparts, hnums, -⟩
    · rw [hnums, hparts, accepts_eq_one, inSeries_one]
      simp
    · rw [hnums, hparts, accepts_eq_two, inSeries_two, padded_lt_two]
      simp only [List.getD_cons_zero, List.getD_cons_succ]
      constructor
      · refine fun h => ⟨fun _ hfirst => ?_, fun hlen => by simp at hlen⟩
        omega
      · rintro ⟨h, -⟩
        have hlater := h rfl
        omega
    · rw [hnums, hparts, accepts_three, satisfiedBy_iff]
      dsimp only
      rw [release_eq_iff, padded_eq_iff]
      constructor
      · refine fun h => ⟨fun hlen => by simp at hlen, fun _ hseries i hi => ?_⟩
        rw [h.mpr hseries i]
        exact List.getD_eq_default _ _ hi
      · rintro ⟨-, hzeros⟩
        refine ⟨fun h i _ => h i, fun hseries i => ?_⟩
        rcases Nat.lt_or_ge i 3 with hi | hi
        · exact hseries i hi
        · rw [hzeros rfl hseries i hi]
          exact (List.getD_eq_default _ _ hi).symm
  · refine iff_of_false (fun h => ?_) fun h => hv h.1
    have hnone := satisfies_unreadable (List.mem_cons_self (a := ([], none))) (Or.inl rfl) hv x
    rw [h [] (by decide)] at hnone
    cases hnone

/-- The bound `3.11`. -/
def threeEleven : Bound := ⟨⟨["3", "11"], by decide, by decide⟩, by decide⟩

theorem matchesSeries_patch : MatchesSeries ⟨1000, 4300⟩ "3.11.4" [3, 11, 4] threeEleven :=
  (matchesSeries_iff threeEleven (by decide +kernel)).mpr
    ⟨by decide +kernel, by decide +kernel, fun hlen => absurd hlen (by decide)⟩

/-- `3.11` and `==3.11` take `3.12`. -/
theorem nextMinor_matches :
    parseVersion ⟨1000, 4300⟩ "3.12" = some (release [3, 12]) ∧
      satisfies ⟨1000, 4300⟩ "3.12" "3.11" = some true ∧
      satisfies ⟨1000, 4300⟩ "3.12" "==3.11" = some true ∧
      ¬MatchesSeries ⟨1000, 4300⟩ "3.12" [3, 12] threeEleven := by
  have hbare : satisfies ⟨1000, 4300⟩ "3.12" "3.11" = some true := by decide +kernel
  refine ⟨by decide +kernel, hbare, by decide +kernel, fun h => ?_⟩
  have htext : [] ++ threeEleven.text = lit "3.11" := by decide
  have heq := h [] (by decide)
  rw [htext, hbare] at heq
  exact absurd heq (by decide)

end DevRepro.Core
