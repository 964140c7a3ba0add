import DevRepro.Core.WholeClauses

/-!
# Ranges as text

`SpecSet.__str__`, and `parse_spec` with the texts that it prints.  Without these the
clauses are those of `parseSpec`.
-/

namespace DevRepro.Core

open DevRepro.Python DevRepro.Lib

variable {limits : Limits}

/-! ## Clauses with their texts -/

/-- `SpecClause`, with the `raw` of its version. -/
structure SpecClause where
  op : Str
  version : Version
  raw : Str
  deriving DecidableEq

/-- What the text of a comparison stands for. -/
def opOf (written : Str) : Option Op := (opTexts.find? fun w => w.1 = written).map (·.2)

/-- The comparison and the version of a clause. -/
def SpecClause.meaning (c : SpecClause) : Op × Version := ((opOf c.op).getD .eq, c.version)

/-- `[SpecClause(op, Version(text))]` -/
def specClause (limits : Limits) (op text : Str) : Option (List SpecClause) :=
  (parseVersion limits text).map fun version => [⟨op, version, strip text⟩]

/-- `_CLAUSE_RE`, with the text of the comparison. -/
def clauseTextParts (text : Str) : Option (Str × Str) :=
  (opTexts.findSome? fun w =>
    if w.1.isPrefixOf text then
      (clauseVersion (text.drop w.1.length)).map fun version => (w.1, version)
    else none).or ((clauseVersion text).map fun version => ([], version))

/-- `[SpecClause(">=", Version(f"{major}.{minor or 0}.0"))]` -/
def lowerClauses (limits : Limits) (major : Nat) (minor : Option Str) : Option (List SpecClause) := do
  let text ← numberText limits major
  specClause limits ">=" (text ++ lit "." ++ minor.getD (lit "0") ++ lit ".0")

/-- `[SpecClause("<", Version(f"{major + 1}.0.0"))]` -/
def upperClauses (limits : Limits) (major : Nat) : Option (List SpecClause) := do
  let text ← numberText limits (major + 1)
  specClause limits "<" (text ++ lit ".0.0")

/-- `_partial_clauses`. -/
def partialSpecClauses (limits : Limits) (op text : Str) : Option (List SpecClause) :=
  let (major, minor, patch) := threeParts text
  let opOrEqual := if op = [] then lit "==" else op
  if major = [] then specClause limits opOrEqual text
  else do
    let major ← digitsOf limits major
    if minor.isSome && patch.isSome then specClause limits opOrEqual text
    else if op ∈ [lit "<", lit "<="] then
      if minor.isNone then upperClauses limits major else specClause limits op text
    else if op ∈ [lit ">", lit ">="] then lowerClauses limits major minor
    else if op ∈ [[], lit "*", lit "==", lit "="] then do
      let low ← lowerClauses limits major minor
      let high ← upperClauses limits major
      return low ++ high
    else specClause limits op text

theorem partialSpecClauses_eq (limits : Limits) (op text : Str) :
    partialSpecClauses limits op text =
      if (threeParts text).1 = [] then
        specClause limits (if op = [] then lit "==" else op) text
      else
        (digitsOf limits (threeParts text).1).bind fun major =>
          if ((threeParts text).2.1.isSome && (threeParts text).2.2.isSome) = true then
            specClause limits (if op = [] then lit "==" else op) text
          else if op ∈ [lit "<", lit "<="] then
            if (threeParts text).2.1.isNone = true then upperClauses limits major
            else specClause limits op text
          else if op ∈ [lit ">", lit ">="] then lowerClauses limits major (threeParts text).2.1
          else if op ∈ [[], lit "*", lit "==", lit "="] then
            (lowerClauses limits major (threeParts text).2.1).bind fun low =>
              (upperClauses limits major).bind fun high => some (low ++ high)
          else specClause limits op text := by
  unfold partialSpecClauses
  rfl

/-- `SpecClause("*", Version("0"))` -/
def bareStar : SpecClause := ⟨"*", release [0], "0"⟩

/-- The clauses of one text between commas. -/
def parseSpecClause (limits : Limits) (raw : Str) : Option (List SpecClause) :=
  let text := strip raw
  if text = [] then some []
  else if text = lit "*" then some [bareStar]
  else do
    let (op, version) ← clauseTextParts text
    partialSpecClauses limits op version

/-- The clauses of one text between bars. -/
def parseGroup (limits : Limits) (raw : Str) : Option (List SpecClause) := do
  let clauses ← (raw.splitOn (codePoint ',')).mapM (parseSpecClause limits)
  return clauses.flatten

/-- `parse_spec` -/
def parseSpecSet (limits : Limits) (spec : Str) : Option (List (List SpecClause)) := do
  let groups ← (splitGroups spec).mapM (parseGroup limits)
  let groups := groups.filter fun group => group != []
  return if groups = [] then [[bareStar]] else groups

/-- `SpecSet.__str__` -/
def specText (groups : List (List SpecClause)) : Str :=
  join " || " (groups.map fun group => join "," (group.map fun c => c.op ++ c.raw))

/-- `SpecSet.satisfied_by` -/
def setSatisfied (groups : List (List SpecClause)) (candidate : Version) : Bool :=
  groups.any fun group => group.all fun c => satisfiedBy candidate c.meaning

/-! ## The clauses without their texts -/

theorem opOf_written {w : Str × Op} (h : w ∈ opTexts) : opOf w.1 = some w.2 := by
  have hall : ∀ w ∈ opTexts, opOf w.1 = some w.2 := by decide
  exact hall w h

theorem clauseParts_meaning (text : Str) :
    clauseParts text = (clauseTextParts text).map fun parts => (opOf parts.1, parts.2) := by
  have hops : opTexts.findSome? (clauseWith text) =
      (opTexts.findSome? fun w =>
        if w.1.isPrefixOf text then
          (clauseVersion (text.drop w.1.length)).map fun version => (w.1, version)
        else none).map fun parts => (opOf parts.1, parts.2) := by
    have hmem : ∀ w ∈ opTexts, opOf w.1 = some w.2 := fun w hw => opOf_written hw
    generalize opTexts = ws at hmem
    induction ws with
    | nil => rfl
    | cons w ws ih =>
      rw [List.findSome?_cons, List.findSome?_cons, ih fun v hv => hmem v (List.mem_cons_of_mem _ hv)]
      unfold clauseWith
      split_ifs
      · cases clauseVersion (text.drop w.1.length) with
        | none => rfl
        | some version => simp [hmem w List.mem_cons_self]
      · rfl
  rw [clauseParts_eq, clauseTextParts, hops]
  cases opTexts.findSome? _ with
  | none =>
    cases clauseVersion text with
    | none => rfl
    | some version => rfl
  | some parts => rfl

theorem specClause_meaning {op : Str} {o : Op} (h : opOf op = some o) (text : Str) :
    (specClause limits op text).map (·.map SpecClause.meaning) = exactly limits (some o) text := by
  unfold specClause exactly
  cases parseVersion limits text with
  | none => rfl
  | some version => simp [SpecClause.meaning, h]

/-- The texts of a comparison, none included. -/
def operatorTexts : List Str := [] :: opTexts.map (·.1)

theorem clauseTextParts_operator {text op version : Str}
    (h : clauseTextParts text = some (op, version)) : op ∈ operatorTexts := by
  unfold clauseTextParts at h
  rcases Option.or_eq_some_iff.mp h with h | ⟨-, h⟩
  · obtain ⟨w, hw, h⟩ := List.exists_of_findSome?_eq_some h
    split_ifs at h
    obtain ⟨rest, -, heq⟩ := Option.map_eq_some_iff.mp h
    obtain ⟨rfl, -⟩ := Prod.mk.inj heq
    exact List.mem_cons_of_mem _ (List.mem_map_of_mem hw)
  · obtain ⟨rest, -, heq⟩ := Option.map_eq_some_iff.mp h
    obtain ⟨rfl, -⟩ := Prod.mk.inj heq
    exact List.mem_cons_self

theorem exactly_operator {op : Str} (h : op ∈ operatorTexts) (text : Str) :
    exactly limits (opOf op) text =
      (specClause limits (if op = [] then lit "==" else op) text).map (·.map SpecClause.meaning) := by
  have hall : ∀ op ∈ operatorTexts,
      opOf (if op = [] then lit "==" else op) = some ((opOf op).getD .eq) := by decide
  rw [specClause_meaning (hall op h)]
  rfl

theorem lower_meaning (limits : Limits) (major : Nat) (minor : Option Str) :
    (lowerClauses limits major minor).map (·.map SpecClause.meaning) =
      (lowerEnd limits major minor).map fun version => [(Op.ge, version)] := by
  unfold lowerEnd lowerClauses
  cases numberText limits major with
  | none => rfl
  | some text => exact specClause_meaning (by decide) _

theorem upper_meaning (limits : Limits) (major : Nat) :
    (upperClauses limits major).map (·.map SpecClause.meaning) =
      (upperEnd limits major).map fun version => [(Op.lt, version)] := by
  unfold upperEnd upperClauses
  cases numberText limits (major + 1) with
  | none => rfl
  | some text => exact specClause_meaning (by decide) _

theorem both_meaning (limits : Limits) (major : Nat) (minor : Option Str) :
    ((lowerClauses limits major minor).bind fun low =>
        (upperClauses limits major).bind fun high => some (low ++ high)).map
        (·.map SpecClause.meaning) =
      (lowerEnd limits major minor).bind fun low =>
        (upperEnd limits major).bind fun high => some [(Op.ge, low), (Op.lt, high)] := by
  have hlow := lower_meaning limits major minor
  have hhigh := upper_meaning limits major
  cases hl : lowerEnd limits major minor with
  | none =>
    rw [hl, Option.map_none, Option.map_eq_none_iff] at hlow
    rw [hlow]
    rfl
  | some low =>
    rw [hl] at hlow
    obtain ⟨lows, hlows, hlow⟩ := Option.map_eq_some_iff.mp hlow
    rw [hlows]
    cases hh : upperEnd limits major with
    | none =>
      rw [hh, Option.map_none, Option.map_eq_none_iff] at hhigh
      simp [hhigh]
    | some high =>
      rw [hh] at hhigh
      obtain ⟨highs, hhighs, hhigh⟩ := Option.map_eq_some_iff.mp hhigh
      simp [hhighs, hlow, hhigh]

/-- Each comparison makes the same clauses with and without the texts. -/
theorem rewritten_meaning {op : Str} (h : op ∈ operatorTexts) (text : Str) (major : Nat)
    (minor : Option Str) :
    rewritten limits (opOf op) text major minor =
      (if op ∈ [lit "<", lit "<="] then
        if minor.isNone then upperClauses limits major else specClause limits op text
      else if op ∈ [lit ">", lit ">="] then lowerClauses limits major minor
      else if op ∈ [[], lit "*", lit "==", lit "="] then
        (lowerClauses limits major minor).bind fun low =>
          (upperClauses limits major).bind fun high => some (low ++ high)
      else specClause limits op text).map (·.map SpecClause.meaning) := by
  by_cases hless : op ∈ [lit "<", lit "<="]
  · have hops : ∀ op ∈ [lit "<", lit "<="], opOf op = some .lt ∨ opOf op = some .le := by decide
    rw [if_pos hless]
    cases minor with
    | none =>
      have hnone : (none : Option Str).isNone = true := rfl
      rw [if_pos hnone, upper_meaning]
      rcases hops op hless with ho | ho <;> rw [ho, rewritten, if_pos hnone]
    | some minor =>
      rw [if_neg (by simp)]
      rcases hops op hless with ho | ho <;>
        rw [ho, rewritten, if_neg (by simp), specClause_meaning ho]
  · rw [if_neg hless]
    by_cases hmore : op ∈ [lit ">", lit ">="]
    · have hops : ∀ op ∈ [lit ">", lit ">="], opOf op = some .gt ∨ opOf op = some .ge := by decide
      rw [if_pos hmore, lower_meaning]
      rcases hops op hmore with ho | ho <;> rw [ho, rewritten]
    · rw [if_neg hmore]
      by_cases hequal : op ∈ [[], lit "*", lit "==", lit "="]
      · have hops : ∀ op ∈ [[], lit "*", lit "==", lit "="],
            opOf op = none ∨ opOf op = some .any ∨ opOf op = some .eq := by decide
        rw [if_pos hequal, both_meaning]
        rcases hops op hequal with ho | ho | ho <;> rw [ho, rewritten] <;> rfl
      · have hops : ∀ op ∈ operatorTexts, op ∉ [lit "<", lit "<="] → op ∉ [lit ">", lit ">="] →
            op ∉ [[], lit "*", lit "==", lit "="] → opOf op = some .ne := by decide
        have ho := hops op h hless hmore hequal
        rw [if_neg hequal, specClause_meaning ho, ho, rewritten]

theorem partialClauses_meaning {op : Str} (h : op ∈ operatorTexts) (text : Str) :
    partialClauses limits (opOf op) text =
      (partialSpecClauses limits op text).map (·.map SpecClause.meaning) := by
  rw [partialClauses_eq, partialSpecClauses_eq]
  by_cases hmajor : (threeParts text).1 = []
  · rw [if_pos hmajor, if_pos hmajor, exactly_operator h]
  · rw [if_neg hmajor, if_neg hmajor]
    cases digitsOf limits (threeParts text).1 with
    | none => rfl
    | some major =>
      rw [Option.bind_some, Option.bind_some]
      by_cases hthree : ((threeParts text).2.1.isSome && (threeParts text).2.2.isSome) = true
      · rw [if_pos hthree, if_pos hthree, exactly_operator h]
      · rw [if_neg hthree, if_neg hthree]
        exact rewritten_meaning h text major _

theorem parseClause_meaning (raw : Str) :
    parseClause limits raw = (parseSpecClause limits raw).map (·.map SpecClause.meaning) := by
  unfold parseClause parseSpecClause
  dsimp only
  by_cases hnil : strip raw = []
  · rw [if_pos hnil, if_pos hnil]
    rfl
  · rw [if_neg hnil, if_neg hnil]
    by_cases hstar : strip raw = lit "*"
    · rw [if_pos hstar, if_pos hstar]
      decide
    · rw [if_neg hstar, if_neg hstar, clauseParts_meaning]
      cases hparts : clauseTextParts (strip raw) with
      | none => rfl
      | some parts => exact partialClauses_meaning (clauseTextParts_operator hparts) parts.2

/-- The clauses of `parse_spec` without their texts are those of the model of `satisfies`. -/
theorem parseSpec_meaning (spec : Str) :
    parseSpec limits spec =
      (parseSpecSet limits spec).map (·.map (·.map SpecClause.meaning)) := by
  have hgroup : ∀ raw : Str,
      ((raw.splitOn (codePoint ',')).mapM (parseClause limits)).bind (fun clauses => some clauses.flatten) =
        (parseGroup limits raw).map (·.map SpecClause.meaning) := by
    intro raw
    unfold parseGroup
    rw [mapM_map parseClause_meaning]
    cases (raw.splitOn (codePoint ',')).mapM (parseSpecClause limits) with
    | none => rfl
    | some clauses => simp [List.map_flatten]
  unfold parseSpec parseSpecSet
  show ((splitGroups spec).mapM fun raw : Str =>
    ((raw.splitOn (codePoint ',')).mapM (parseClause limits)).bind
      (fun clauses => some clauses.flatten)).bind _ = _
  rw [mapM_map hgroup]
  cases (splitGroups spec).mapM (parseGroup limits) with
  | none => rfl
  | some groups =>
    have hfilter : (groups.map (·.map SpecClause.meaning)).filter (fun group => group != []) =
        (groups.filter fun group => group != []).map (·.map SpecClause.meaning) := by
      rw [List.filter_map]
      congr 1
      refine List.filter_congr fun group _ => ?_
      cases group <;> rfl
    show some _ = some _
    dsimp only
    rw [hfilter]
    cases groups.filter fun group => group != [] with
    | nil => decide
    | cons group rest => rfl

end DevRepro.Core
