import DevRepro.Python.JsonDump

/-!
# Versions and version ranges

`core/versioning.py`.  Everything that goes wrong in it is a `ValueError`, so
`none` stands for that one.
-/

namespace DevRepro.Core

open DevRepro.Python

/-! ## Versions -/

/-- A parsed `Version`. -/
structure Version where
  nums : List Nat
  tag : Option Str
  deriving DecidableEq

/-- The parts of a text between `||`. -/
def splitGroups : Str → List Str
  | [] => [[]]
  | [c] => [[c]]
  | c :: d :: rest =>
    if c = codePoint '|' ∧ d = codePoint '|' then [] :: splitGroups rest
    else
      match splitGroups (d :: rest) with
      | part :: parts => (c :: part) :: parts
      | [] => [[]]

/-- `\d+`, as a number. -/
def digitsOf (limits : Limits) (s : Str) : Option Nat :=
  match s.mapM digitValue? with
  | none => none
  | some [] => none
  | some digits =>
    if limits.intDigits < digits.length then none
    else some (digits.foldl (fun acc d => acc * 10 + d) 0)

/-- `\d+(?:\.\d+)*`. -/
def isNums (s : Str) : Bool :=
  (s.splitOn (codePoint '.')).all fun part => part != [] && part.all fun c => (digitValue? c).isSome

/-- `[0-9A-Za-z]`. -/
def isTagStart (c : CodePoint) : Bool :=
  codePoint '0' ≤ c && c ≤ codePoint '9' || codePoint 'A' ≤ c && c ≤ codePoint 'Z' ||
    codePoint 'a' ≤ c && c ≤ codePoint 'z'

/-- `([0-9A-Za-z][0-9A-Za-z.-]*)?$`: the tag of a version. -/
def tagOf : Str → Option (Option Str)
  | [] => some none
  | c :: rest =>
    if isTagStart c && rest.all fun d => isTagStart d || d = codePoint '.' || d = codePoint '-' then
      some (some (c :: rest))
    else none

/-- `[.\-+]?`, and the tag behind it: with the separator if that goes, without it otherwise. -/
def restOf (s : Str) : Option (Option Str) :=
  match s with
  | c :: rest =>
    if c = codePoint '.' ∨ c = codePoint '-' ∨ c = codePoint '+' then tagOf rest else tagOf s
  | [] => tagOf []

/-- The longest numeric part of a text that leaves a tag. -/
def splitVersion (s : Str) : Option (Str × Option Str) :=
  (List.range s.length).reverse.findSome? fun n =>
    if isNums (s.take (n + 1)) then (restOf (s.drop (n + 1))).map fun tag => (s.take (n + 1), tag)
    else none

/-- `Version(raw)`. -/
def parseVersion (limits : Limits) (raw : Str) : Option Version :=
  let text := strip raw
  let body := if text.head? = some (codePoint 'v') then text.tail else text
  match splitVersion body with
  | none => none
  | some (nums, tag) =>
    ((nums.splitOn (codePoint '.')).mapM (digitsOf limits)).map fun nums => ⟨nums, tag⟩

/-- `_cmp_versions`. -/
def cmpVersions (a b : Version) : Ordering :=
  let size := max a.nums.length b.nums.length
  let pad := fun nums : List Nat => nums ++ List.replicate (size - nums.length) 0
  if pad a.nums < pad b.nums then .lt
  else if pad b.nums < pad a.nums then .gt
  else
    match a.tag, b.tag with
    | none, none => .eq
    | none, some _ => .gt
    | some _, none => .lt
    | some s, some t => if s = t then .eq else if strLe s t then .lt else .gt

/-! ## Ranges -/

inductive Op where
  | any
  | ge
  | le
  | ne
  | eq
  | gt
  | lt
  deriving DecidableEq

/-- `SpecClause.satisfied_by`. -/
def satisfiedBy (candidate : Version) (clause : Op × Version) : Bool :=
  let c := cmpVersions candidate clause.2
  match clause.1 with
  | .any => true
  | .ge => c != .lt
  | .le => c != .gt
  | .ne => c != .eq
  | .eq => c == .eq
  | .gt => c == .gt
  | .lt => c == .lt

/-- The texts of the comparisons, in the order in which they are tried. -/
def opTexts : List (Str × Op) :=
  [("*", .any), (">=", .ge), ("<=", .le), ("!=", .ne), ("==", .eq), ("=", .eq), (">", .gt),
    ("<", .lt)]

/-- `_CLAUSE_RE`: the comparison of a clause and its version. -/
def clauseParts (text : Str) : Option (Option Op × Str) :=
  let versionText := fun s : Str =>
    let rest := s.dropWhile isSpace
    if rest = [] ∨ codePoint '\n' ∈ rest then none else some rest
  let withOp := opTexts.findSome? fun (written, op) =>
    if written.isPrefixOf text then
      (versionText (text.drop written.length)).map fun rest => (some op, rest)
    else none
  withOp.or ((versionText text).map fun rest => (none, rest))

/-- The digits at the start of a text, and what is behind them. -/
def leadingDigits (s : Str) : Str × Str :=
  (s.takeWhile fun c => (digitValue? c).isSome, s.dropWhile fun c => (digitValue? c).isSome)

/-- `(?:\.(\d+))?` -/
def dottedDigits (s : Str) : Option Str × Str :=
  match s with
  | c :: rest =>
    if c = codePoint '.' ∧ (leadingDigits rest).1 ≠ [] then
      (some (leadingDigits rest).1, (leadingDigits rest).2)
    else (none, s)
  | [] => (none, [])

/-- `f"{n}"`. -/
def numberText (limits : Limits) (n : Nat) : Option Str :=
  if fitsDigits limits n then some (natStr n) else none

/-- `_partial_clauses`. -/
def partialClauses (limits : Limits) (op : Option Op) (text : Str) :
    Option (List (Op × Version)) :=
  let exactly := fun op => (parseVersion limits text).map fun version => [(op, version)]
  let (majorText, behind) := leadingDigits text
  if majorText = [] then exactly (op.getD .eq)
  else do
    let major ← digitsOf limits majorText
    let (minor, behind) := dottedDigits behind
    let patch := (dottedDigits behind).1
    if minor.isSome && patch.isSome then exactly (op.getD .eq)
    else
      let lower := do
        let text ← numberText limits major
        parseVersion limits (text ++ lit "." ++ minor.getD (lit "0") ++ lit ".0")
      let upper := do
        let text ← numberText limits (major + 1)
        parseVersion limits (text ++ lit ".0.0")
      match op with
      | some .lt | some .le =>
        if minor.isNone then upper.map fun version => [(.lt, version)]
        else exactly (op.getD .eq)
      | some .gt | some .ge => lower.map fun version => [(.ge, version)]
      | none | some .any | some .eq => do
        let low ← lower
        let high ← upper
        return [(.ge, low), (.lt, high)]
      | some .ne => exactly .ne

/-- The clauses of one text between commas. -/
def parseClause (limits : Limits) (raw : Str) : Option (List (Op × Version)) :=
  let text := strip raw
  if text = [] then some []
  else if text = lit "*" then some [(.any, ⟨[0], none⟩)]
  else do
    let (op, version) ← clauseParts text
    partialClauses limits op version

/-- `parse_spec`: groups of clauses, without the empty ones. -/
def parseSpec (limits : Limits) (spec : Str) : Option (List (List (Op × Version))) := do
  let groups ← (splitGroups spec).mapM fun raw => do
    let clauses ← (raw.splitOn (codePoint ',')).mapM (parseClause limits)
    return clauses.flatten
  let groups := groups.filter fun group => group != []
  return if groups = [] then [[(.any, ⟨[0], none⟩)]] else groups

/-- `satisfies`. -/
def satisfies (limits : Limits) (version spec : Str) : Option Bool :=
  if strip spec ∈ [lit "*", [], lit "any"] then some true
  else do
    let groups ← parseSpec limits spec
    let candidate ← parseVersion limits version
    return groups.any fun group => group.all (satisfiedBy candidate)

example : satisfies ⟨1000, 4300⟩ "18.19.0" ">=18 || 16" = some true := by decide +kernel

end DevRepro.Core
