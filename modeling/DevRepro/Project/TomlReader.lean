import DevRepro.Lib.Dict
import DevRepro.Project.Policy
import DevRepro.Python.JsonScan
import DevRepro.Python.Replace
import DevRepro.Python.Words

/-!
# Reading a TOML text

`tomllib.loads`.  The text is read into statements first, one on each line, and the
document is built from these: what `tomllib` does in one pass fails or succeeds for the
same texts.

The values that the generators of this package write are booleans and strings on one
line.  Any other one, a number, a date, an array, an inline table or a string of several
lines, is read by a parameter.
-/

namespace DevRepro.Project

open DevRepro.Python DevRepro.Lib

/-! ## Characters -/

/-- `TOML_WS` -/
def isTomlSpace (c : CodePoint) : Bool := c == codePoint ' ' || c == codePoint '\t'

/-- `BARE_KEY_CHARS` -/
def isBareKeyChar (c : CodePoint) : Bool :=
  (0x30 ≤ c.val && c.val ≤ 0x39) || (0x41 ≤ c.val && c.val ≤ 0x5A) ||
    (0x61 ≤ c.val && c.val ≤ 0x7A) || c == codePoint '-' || c == codePoint '_'

/-- `ILLEGAL_BASIC_STR_CHARS`, which are those of comments and literal strings as well. -/
def isIllegal (c : CodePoint) : Bool := (c.val < 0x20 && c.val != 0x09) || c.val == 0x7F

def isNewline (c : CodePoint) : Bool := c == codePoint '\n'

/-- `skip_chars(src, pos, TOML_WS)` -/
def skipSpace (s : Str) : Str := s.dropWhile isTomlSpace

/-! ## Strings -/

/-- `BASIC_STR_ESCAPE_REPLACEMENTS` -/
def escapeChar? (c : CodePoint) : Option CodePoint :=
  if c = codePoint 'b' then some 0x08
  else if c = codePoint 't' then some 0x09
  else if c = codePoint 'n' then some 0x0A
  else if c = codePoint 'f' then some 0x0C
  else if c = codePoint 'r' then some 0x0D
  else if c = codePoint '"' then some c
  else if c = codePoint '\\' then some c
  else none

/-- `parse_hex_char`. -/
def readHexChar (count : Nat) (s : Str) : Option (CodePoint × Str) := do
  guard (count ≤ s.length)
  let digits ← (s.take count).mapM Scan.hexDigit?
  let value := digits.foldl (fun value d => value * 16 + d) 0
  if h : value < 0x110000 then
    let c : CodePoint := ⟨value, h⟩
    if isSurrogate c then none else some (c, s.drop count)
  else none

/-- `parse_basic_str_escape`, behind the backslash. -/
def readEscape : Str → Option (CodePoint × Str)
  | [] => none
  | c :: rest =>
    if c = codePoint 'u' then readHexChar 4 rest
    else if c = codePoint 'U' then readHexChar 8 rest
    else (escapeChar? c).map fun d => (d, rest)

/-- `parse_basic_str` on one line, behind the opening quote: the string, and the text
behind the closing one. -/
def readBasic : Nat → Str → Option (Str × Str)
  | 0, _ => none
  | _ + 1, [] => none
  | fuel + 1, c :: rest =>
    if c = codePoint '"' then some ([], rest)
    else if c = codePoint '\\' then do
      let (d, rest) ← readEscape rest
      let (s, rest) ← readBasic fuel rest
      return (d :: s, rest)
    else if isIllegal c then none
    else do
      let (s, rest) ← readBasic fuel rest
      return (c :: s, rest)

/-- `parse_one_line_basic_str`, behind the opening quote. -/
def readOneLineBasic (s : Str) : Option (Str × Str) := readBasic (s.length + 1) s

/-- `parse_literal_str`, behind the opening quote. -/
def readLiteral (s : Str) : Option (Str × Str) :=
  let body := s.takeWhile fun c => c != 0x27
  match s.dropWhile fun c => c != 0x27 with
  | [] => none
  | _ :: rest => if body.any isIllegal then none else some (body, rest)

/-! ## Keys and values -/

/-- `parse_key_part`. -/
def readKeyPart : Str → Option (Str × Str)
  | [] => none
  | c :: rest =>
    if isBareKeyChar c then
      some ((c :: rest).takeWhile isBareKeyChar, (c :: rest).dropWhile isBareKeyChar)
    else if c = 0x27 then readLiteral rest
    else if c = codePoint '"' then readOneLineBasic rest
    else none

/-- `parse_key`: the parts between the dots. -/
def readKey : Nat → Str → Option (List Str × Str)
  | 0, _ => none
  | fuel + 1, s => do
    let (part, s) ← readKeyPart s
    match skipSpace s with
    | [] => return ([part], [])
    | c :: rest =>
      if c = codePoint '.' then
        let (parts, rest) ← readKey fuel (skipSpace rest)
        return (part :: parts, rest)
      else return ([part], c :: rest)

variable (otherValue : Str → Option (Toml × Str))

/-- `parse_value`. -/
def readValue (s : Str) : Option (Toml × Str) :=
  if startsWith s (lit "\"\"\"") then otherValue s
  else if startsWith s (lit "\"") then (readOneLineBasic s.tail).map fun (v, rest) => (.str v, rest)
  else if startsWith s (lit "true") then some (.bool true, s.drop 4)
  else if startsWith s (lit "false") then some (.bool false, s.drop 5)
  else otherValue s

/-! ## Statements -/

inductive TomlStatement where
  /-- `key = value` -/
  | entry (key : List Str) (value : Toml)
  /-- `[key]` -/
  | opens (key : List Str)
  /-- `[[key]]` -/
  | appends (key : List Str)

/-- One statement at the start of a text. -/
def readStatement (s : Str) : Option (TomlStatement × Str) :=
  if startsWith s (lit "[[") then do
    let (key, s) ← readKey (s.length + 1) (skipSpace (s.drop 2))
    if startsWith s (lit "]]") then return (.appends key, s.drop 2) else none
  else if startsWith s (lit "[") then do
    let (key, s) ← readKey (s.length + 1) (skipSpace s.tail)
    if startsWith s (lit "]") then return (.opens key, s.tail) else none
  else do
    let (key, s) ← readKey (s.length + 1) s
    if startsWith s (lit "=") then
      let (value, s) ← readValue otherValue (skipSpace s.tail)
      return (.entry key value, s)
    else none

/-- The rest of a line: spaces, a comment, and the newline or the end of the text. -/
def finishLine (s : Str) : Option Str :=
  let s := skipSpace s
  let comment := if startsWith s (lit "#") then s.takeWhile fun c => !isNewline c else []
  if comment.any isIllegal then none
  else match s.drop comment.length with
    | [] => some []
    | c :: rest => if isNewline c then some rest else none

/-- The loop of `loads`. -/
def readStatements : Nat → Str → Option (List TomlStatement)
  | 0, _ => none
  | fuel + 1, s =>
    match skipSpace s with
    | [] => some []
    | c :: rest =>
      if isNewline c || c == codePoint '#' then do
        let rest ← finishLine (c :: rest)
        readStatements fuel rest
      else do
        let (statement, rest) ← readStatement otherValue (c :: rest)
        let rest ← finishLine rest
        let more ← readStatements fuel rest
        return statement :: more

/-! ## The document -/

/-- `get_or_create_nest`, and what is done to the table there. -/
def nestAt (change : Document → Option Document) : List Str → Document → Option Document
  | [], items => change items
  | k :: key, items =>
    match Dict.find? k items with
    | none => do
      let nest ← nestAt change key []
      return Dict.put k (.table nest) items
    | some (.table nest) => do
      let nest ← nestAt change key nest
      return Dict.put k (.table nest) items
    | some (.arr elems) =>
      match elems.getLast? with
      | some (.table nest) => do
        let nest ← nestAt change key nest
        return Dict.put k (.arr (elems.dropLast ++ [.table nest])) items
      | _ => none
    | some _ => none

/-- `Output` with its `Flags`, and the header of the section. -/
structure TomlOutput where
  data : Document
  header : List Str
  /-- `Flags.FROZEN`, which holds for all that is below as well. -/
  frozen : List (List Str)
  /-- `Flags.EXPLICIT_NEST` -/
  explicitNest : List (List Str)
  pending : List (List Str)

def TomlOutput.isFrozen (out : TomlOutput) (key : List Str) : Bool :=
  out.frozen.any fun other => other.isPrefixOf key

def TomlOutput.isExplicit (out : TomlOutput) (key : List Str) : Bool := out.explicitNest.contains key

/-- `isinstance(value, (dict, list))` -/
def isContainer : Toml → Bool
  | .arr _ => true
  | .table _ => true
  | _ => false

/-- `nest[key] = value`, where the key is new. -/
def addNew (key : Str) (value : Toml) (nest : Document) : Option Document :=
  if (Dict.find? key nest).isSome then none else some (Dict.put key value nest)

/-- `append_nest_to_list`, in the table that holds the list. -/
def appendNest (key : Str) (nest : Document) : Option Document :=
  match Dict.find? key nest with
  | none => some (Dict.put key (.arr [.table []]) nest)
  | some (.arr elems) => some (Dict.put key (.arr (elems ++ [.table []])) nest)
  | some _ => none

/-- `finalize_pending`. -/
def TomlOutput.finalizePending (out : TomlOutput) : TomlOutput :=
  { out with explicitNest := out.pending ++ out.explicitNest, pending := [] }

/-- `key_value_rule`, `create_dict_rule` and `create_list_rule`. -/
def TomlOutput.apply (out : TomlOutput) : TomlStatement → Option TomlOutput
  | .entry key value => do
    let stem ← key.getLast?
    let containers := (List.range (key.length - 1)).map fun i => out.header ++ key.take (i + 1)
    guard (!containers.any out.isExplicit)
    guard (!out.isFrozen (out.header ++ key.dropLast))
    let data ← nestAt (addNew stem value) (out.header ++ key.dropLast) out.data
    return { out with
      data
      pending := containers ++ out.pending
      frozen := if isContainer value then (out.header ++ key) :: out.frozen else out.frozen }
  | .opens key => do
    let out := out.finalizePending
    guard (!out.isExplicit key && !out.isFrozen key)
    let data ← nestAt some key out.data
    return { out with data, header := key, explicitNest := key :: out.explicitNest }
  | .appends key => do
    let out := out.finalizePending
    guard (!out.isFrozen key)
    let stem ← key.getLast?
    let data ← nestAt (appendNest stem) key.dropLast out.data
    return {
      data, header := key, pending := out.pending
      frozen := out.frozen.filter fun other => !key.isPrefixOf other
      explicitNest := key :: out.explicitNest.filter fun other => !key.isPrefixOf other }

/-- The document of some statements. -/
def documentOf (statements : List TomlStatement) : Option Document :=
  (statements.foldlM TomlOutput.apply ⟨[], [], [], [], []⟩).map TomlOutput.data

/-- `tomllib.loads`, where nothing is returned for a `TOMLDecodeError`. -/
def loadsToml (text : Str) : Option Document := do
  let src := replaceText (lit "\r\n") (lit "\n") text
  let statements ← readStatements otherValue (src.length + 1) src
  documentOf statements

/-! ## What a line is read as -/

/-- A line that is read as some statements, whatever stands behind it. -/
def ReadsAs (line : Str) (statements : List TomlStatement) : Prop :=
  ∀ fuel rest, readStatements otherValue (fuel + 1) (line ++ codePoint '\n' :: rest) =
    (readStatements otherValue fuel rest).map (statements ++ ·)

/-- A key that needs no quotes. -/
def BareKey (k : Str) : Prop := k ≠ [] ∧ ∀ c ∈ k, isBareKeyChar c = true

/-- A string that needs no escapes. -/
def PlainString (s : Str) : Prop :=
  ∀ c ∈ s, c ≠ codePoint '"' ∧ c ≠ codePoint '\\' ∧ isIllegal c = false

variable {otherValue : Str → Option (Toml × Str)}

/-- The characters of a plain string are read as they are. -/
theorem readBasic_append {p : Str} (hp : PlainString p) (fuel : Nat) (s : Str) :
    readBasic (fuel + p.length) (p ++ s) = (readBasic fuel s).map fun read => (p ++ read.1, read.2) := by
  induction p with
  | nil => simp
  | cons c p ih =>
    obtain ⟨hquote, hslash, hlegal⟩ := hp c List.mem_cons_self
    have hrest : PlainString p := fun d hd => hp d (List.mem_cons_of_mem c hd)
    rw [List.cons_append, List.length_cons, ← Nat.add_assoc, readBasic, if_neg hquote, if_neg hslash,
      hlegal, ih hrest]
    cases readBasic fuel s with
    | none => rfl
    | some read => rfl

theorem readOneLineBasic_append {p : Str} (hp : PlainString p) (s : Str) :
    readOneLineBasic (p ++ s) = (readOneLineBasic s).map fun read => (p ++ read.1, read.2) := by
  have hlength : (p ++ s).length + 1 = s.length + 1 + p.length := by
    rw [List.length_append]
    omega
  rw [readOneLineBasic, hlength, readBasic_append hp]
  rfl

theorem readOneLineBasic_plain {s : Str} (hs : PlainString s) (rest : Str) :
    readOneLineBasic (s ++ codePoint '"' :: rest) = some (s, rest) := by
  have hquote : readOneLineBasic (codePoint '"' :: rest) = some ([], rest) := rfl
  rw [readOneLineBasic_append hs, hquote, Option.map_some, List.append_nil]

/-- A bare key ends at the first character of another kind. -/
theorem takeWhile_bare {k : Str} (hk : ∀ c ∈ k, isBareKeyChar c = true) {d : CodePoint}
    (hd : isBareKeyChar d = false) (rest : Str) :
    (k ++ d :: rest).takeWhile isBareKeyChar = k ∧
      (k ++ d :: rest).dropWhile isBareKeyChar = d :: rest := by
  constructor
  · rw [List.takeWhile_append_of_pos hk]
    simp [hd]
  · rw [List.dropWhile_append_of_pos hk]
    simp [hd]

theorem readKeyPart_bare {k : Str} (hk : BareKey k) {d : CodePoint} (hd : isBareKeyChar d = false)
    (rest : Str) : readKeyPart (k ++ d :: rest) = some (k, d :: rest) := by
  obtain ⟨htake, hdrop⟩ := takeWhile_bare hk.2 hd rest
  cases k with
  | nil => exact absurd rfl hk.1
  | cons c k =>
    rw [List.cons_append, readKeyPart, if_pos (hk.2 c List.mem_cons_self), ← List.cons_append,
      htake, hdrop]

/-- A key with one bare part, up to the character behind it. -/
theorem readKey_bare {k : Str} (hk : BareKey k) {d : CodePoint} (hd : isBareKeyChar d = false)
    {fuel : Nat} {rest next : Str} {e : CodePoint} (hspace : skipSpace (d :: rest) = e :: next)
    (he : e ≠ codePoint '.') :
    readKey (fuel + 1) (k ++ d :: rest) = some ([k], e :: next) := by
  rw [readKey, readKeyPart_bare hk hd]
  simp [hspace, he]

theorem bareKey_head {k : Str} (hk : BareKey k) : ∃ c t, k = c :: t ∧ isBareKeyChar c = true := by
  cases k with
  | nil => exact absurd rfl hk.1
  | cons c t => exact ⟨c, t, rfl, hk.2 c List.mem_cons_self⟩

theorem ne_of_isBareKeyChar {c d : CodePoint} (hc : isBareKeyChar c = true)
    (hd : isBareKeyChar d = false) : c ≠ d := by
  rintro rfl
  rw [hc] at hd
  cases hd

theorem startsWith_cons_of_ne {c d : CodePoint} (h : d ≠ c) (s start : Str) :
    startsWith (c :: s) (d :: start) = false := by
  simp [startsWith, List.isPrefixOf, h]

theorem skipSpace_of_ne {c : CodePoint} (hc : isTomlSpace c = false) (rest : Str) :
    skipSpace (c :: rest) = c :: rest := by
  simp [skipSpace, hc]

/-- Nothing is left of a line. -/
theorem finishLine_newline (rest : Str) : finishLine (codePoint '\n' :: rest) = some rest := by
  have hspace : skipSpace (codePoint '\n' :: rest) = codePoint '\n' :: rest :=
    skipSpace_of_ne (by decide) rest
  have hstart : startsWith (codePoint '\n' :: rest) (lit "#") = false := rfl
  simp [finishLine, hspace, hstart, isNewline]

theorem readsAs_blank : ReadsAs otherValue [] [] := by
  intro fuel rest
  have hspace : skipSpace (codePoint '\n' :: rest) = codePoint '\n' :: rest :=
    skipSpace_of_ne (by decide) rest
  rw [List.nil_append, readStatements, hspace]
  simp [isNewline, finishLine_newline]

/-- A line that is one statement. -/
theorem readsAs_statement {c : CodePoint} {t : Str} {statement : TomlStatement}
    (hspace : isTomlSpace c = false) (hnewline : isNewline c = false) (hcomment : c ≠ codePoint '#')
    (hread : ∀ rest, readStatement otherValue (c :: t ++ codePoint '\n' :: rest) =
      some (statement, codePoint '\n' :: rest)) :
    ReadsAs otherValue (c :: t) [statement] := by
  intro fuel rest
  have hskip : skipSpace (c :: t ++ codePoint '\n' :: rest) = c :: (t ++ codePoint '\n' :: rest) :=
    skipSpace_of_ne hspace _
  have hread' := hread rest
  rw [List.cons_append] at hread'
  rw [readStatements, hskip]
  simp only [hnewline, Bool.false_or, beq_iff_eq, if_neg hcomment, hread']
  simp only [Option.bind_eq_bind, Option.bind_some, finishLine_newline, Option.pure_def]
  rw [Option.map_eq_bind]
  rfl

/-- A comment is skipped. -/
theorem readsAs_comment {t : Str} (ht : ∀ c ∈ t, isIllegal c = false ∧ isNewline c = false) :
    ReadsAs otherValue (codePoint '#' :: t) [] := by
  intro fuel rest
  have hskip : skipSpace (codePoint '#' :: (t ++ codePoint '\n' :: rest)) =
      codePoint '#' :: (t ++ codePoint '\n' :: rest) := skipSpace_of_ne (by decide) _
  have hline : (codePoint '#' :: (t ++ codePoint '\n' :: rest)).takeWhile (fun c => !isNewline c) =
      codePoint '#' :: t := by
    have hall : ∀ c ∈ codePoint '#' :: t, (!isNewline c) = true := by
      intro c hc
      rcases List.mem_cons.mp hc with rfl | hc
      · rfl
      · rw [(ht c hc).2]
        rfl
    rw [← List.cons_append, List.takeWhile_append_of_pos hall]
    simp [isNewline]
  have hlegal : (codePoint '#' :: t).any isIllegal = false := by
    rw [List.any_eq_false]
    intro c hc
    rcases List.mem_cons.mp hc with rfl | hc
    · decide
    · simp [(ht c hc).1]
  have hstart : startsWith (codePoint '#' :: (t ++ codePoint '\n' :: rest)) (lit "#") = true := rfl
  have hfinish : finishLine (codePoint '#' :: (t ++ codePoint '\n' :: rest)) = some rest := by
    have hdrop : (codePoint '#' :: (t ++ codePoint '\n' :: rest)).drop (codePoint '#' :: t).length =
        codePoint '\n' :: rest := by
      rw [← List.cons_append, List.drop_left]
    rw [finishLine]
    simp only [hskip, hstart, if_true, hline, hlegal, Bool.false_eq_true, if_false, hdrop]
    simp [isNewline]
  rw [List.cons_append, readStatements, hskip]
  simp [hfinish]

/-- `[name]` -/
theorem readsAs_opens {k : Str} (hk : BareKey k) :
    ReadsAs otherValue (lit "[" ++ k ++ lit "]") [.opens [k]] := by
  obtain ⟨c, t, hct, hc⟩ := bareKey_head hk
  refine readsAs_statement (t := k ++ lit "]") (by decide) (by decide) (by decide) fun rest => ?_
  have hline : codePoint '[' :: (k ++ lit "]") ++ codePoint '\n' :: rest =
      codePoint '[' :: (k ++ codePoint ']' :: codePoint '\n' :: rest) := by
    simp [lit]
  have hbracket : codePoint '[' ≠ c := (ne_of_isBareKeyChar hc (by decide)).symm
  have hone : startsWith (codePoint '[' :: (k ++ codePoint ']' :: codePoint '\n' :: rest))
      (lit "[[") = false := by
    rw [hct]
    change startsWith (codePoint '[' :: c :: _) [codePoint '[', codePoint '['] = false
    simp [startsWith, List.isPrefixOf, hbracket]
  have hspace : skipSpace (k ++ codePoint ']' :: codePoint '\n' :: rest) =
      k ++ codePoint ']' :: codePoint '\n' :: rest := by
    rw [hct, List.cons_append]
    refine skipSpace_of_ne ?_ _
    have hblank : c ≠ codePoint ' ' := ne_of_isBareKeyChar hc (by decide)
    have htab : c ≠ codePoint '\t' := ne_of_isBareKeyChar hc (by decide)
    simp [isTomlSpace, hblank, htab]
  have hkey : ∀ fuel, readKey (fuel + 1) (k ++ codePoint ']' :: codePoint '\n' :: rest) =
      some ([k], codePoint ']' :: codePoint '\n' :: rest) := fun fuel =>
    readKey_bare hk (by decide) (skipSpace_of_ne (by decide) _) (by decide)
  have hstart : startsWith (codePoint '[' :: (k ++ codePoint ']' :: codePoint '\n' :: rest))
      (lit "[") = true := rfl
  have hend : startsWith (codePoint ']' :: codePoint '\n' :: rest) (lit "]") = true := rfl
  change readStatement otherValue (codePoint '[' :: (k ++ lit "]") ++ codePoint '\n' :: rest) = _
  rw [hline, readStatement, hone, if_neg Bool.false_ne_true, hstart, if_pos rfl, List.tail_cons,
    hspace, hkey]
  simp [hend]

/-- A line that starts with a bare key starts a statement. -/
theorem bareKey_start {k : Str} (hk : BareKey k) :
    ∃ c t, k = c :: t ∧ isTomlSpace c = false ∧ isNewline c = false ∧ c ≠ codePoint '#' ∧
      c ≠ codePoint '[' := by
  obtain ⟨c, t, rfl, hc⟩ := bareKey_head hk
  have hne : ∀ d, isBareKeyChar d = false → c ≠ d := fun d hd => ne_of_isBareKeyChar hc hd
  have hnewline : c ≠ codePoint '\n' := hne _ (by decide)
  refine ⟨c, t, rfl, ?_, by simp [isNewline, hnewline], hne _ (by decide), hne _ (by decide)⟩
  simp [isTomlSpace, hne (codePoint ' ') (by decide), hne (codePoint '\t') (by decide)]

/-- A key written with dots between its parts. -/
theorem readKey_parts {parts : List Str} (hne : parts ≠ []) (hparts : ∀ part ∈ parts, BareKey part)
    {d : CodePoint} (hd : isBareKeyChar d = false) {rest next : Str} {e : CodePoint}
    (hspace : skipSpace (d :: rest) = e :: next) (he : e ≠ codePoint '.') {fuel : Nat}
    (hfuel : parts.length ≤ fuel) :
    readKey fuel (join "." parts ++ d :: rest) = some (parts, e :: next) := by
  induction parts generalizing fuel with
  | nil => exact absurd rfl hne
  | cons part parts ih =>
    rw [List.forall_mem_cons] at hparts
    rw [List.length_cons] at hfuel
    obtain ⟨fuel, rfl⟩ := Nat.exists_eq_add_of_le' (Nat.le_trans (Nat.le_add_left 1 _) hfuel)
    cases parts with
    | nil => exact readKey_bare hparts.1 hd hspace he
    | cons second more =>
      have hline : join "." (part :: second :: more) ++ d :: rest =
          part ++ codePoint '.' :: (join "." (second :: more) ++ d :: rest) := by
        have hjoin : join "." (part :: second :: more) =
            part ++ lit "." ++ join "." (second :: more) := rfl
        rw [hjoin]
        simp [lit]
      have hdot : ∀ s : Str, skipSpace (codePoint '.' :: s) = codePoint '.' :: s :=
        fun s => skipSpace_of_ne (by decide) s
      have hskip : skipSpace (join "." (second :: more) ++ d :: rest) =
          join "." (second :: more) ++ d :: rest := by
        obtain ⟨c, t, hct, hc, -⟩ := bareKey_start (hparts.2 second List.mem_cons_self)
        cases more with
        | nil =>
          rw [show join "." [second] = second from rfl, hct]
          exact skipSpace_of_ne hc _
        | cons third others =>
          rw [show join "." (second :: third :: others) =
            second ++ lit "." ++ join "." (third :: others) from rfl, hct]
          exact skipSpace_of_ne hc _
      have hrest := ih (List.cons_ne_nil _ _) hparts.2 (Nat.le_of_succ_le_succ hfuel)
      rw [hline, readKey, readKeyPart_bare hparts.1 (by decide)]
      simp [hdot, hskip, hrest]

/-- A key of bare parts starts a statement. -/
theorem join_start {parts : List Str} (hne : parts ≠ []) (hparts : ∀ part ∈ parts, BareKey part) :
    ∃ c t, join "." parts = c :: t ∧ isTomlSpace c = false ∧ isNewline c = false ∧
      c ≠ codePoint '#' ∧ c ≠ codePoint '[' := by
  cases parts with
  | nil => exact absurd rfl hne
  | cons part parts =>
    obtain ⟨c, t, rfl, hc⟩ := bareKey_start (hparts part List.mem_cons_self)
    cases parts with
    | nil => exact ⟨c, t, rfl, hc⟩
    | cons second more => exact ⟨c, t ++ lit "." ++ join "." (second :: more), rfl, hc⟩

/-- The parts of a key that is written without quotes. -/
def keyParts (name : Str) : List Str := linesOf (fun c => c == codePoint '.') name

theorem keyParts_join {parts : List Str} (hne : parts ≠ []) (hparts : ∀ part ∈ parts, BareKey part) :
    keyParts (join "." parts) = parts := by
  have hunbroken : ∀ part, BareKey part → Unbroken (fun c => c == codePoint '.') part := by
    intro part hpart c hc
    have hdot : c ≠ codePoint '.' := ne_of_isBareKeyChar (hpart.2 c hc) (by decide)
    simp [hdot]
  induction parts with
  | nil => exact absurd rfl hne
  | cons part parts ih =>
    rw [List.forall_mem_cons] at hparts
    cases parts with
    | nil => exact (hunbroken part hparts.1).linesOf
    | cons second more =>
      have hjoin : join "." (part :: second :: more) =
          part ++ codePoint '.' :: join "." (second :: more) := by
        rw [show join "." (part :: second :: more) =
          part ++ lit "." ++ join "." (second :: more) from rfl]
        simp [lit]
      rw [hjoin, keyParts, linesOf_append_cons _ _ (by decide), (hunbroken part hparts.1).linesOf]
      exact congrArg (part :: ·) (ih (List.cons_ne_nil _ _) hparts.2)

theorem length_le_join {parts : List Str} (hparts : ∀ part ∈ parts, BareKey part) :
    parts.length ≤ (join "." parts).length := by
  induction parts with
  | nil => exact Nat.zero_le _
  | cons part parts ih =>
    rw [List.forall_mem_cons] at hparts
    have hpart : 0 < part.length := List.length_pos_iff.mpr hparts.1.1
    have hrest := ih hparts.2
    cases parts with
    | nil => exact hpart
    | cons second more =>
      rw [show join "." (part :: second :: more) =
        part ++ lit "." ++ join "." (second :: more) from rfl, List.length_append, List.length_append,
        List.length_cons]
      omega

/-- The statement of a key of bare parts is as good as its value. -/
theorem readStatement_parts {parts : List Str} (hne : parts ≠ [])
    (hparts : ∀ part ∈ parts, BareKey part) (s : Str) :
    readStatement otherValue (join "." parts ++ lit " = " ++ s) =
      (readValue otherValue (skipSpace s)).map fun read => (.entry parts read.1, read.2) := by
  obtain ⟨c, t, hct, -, -, -, hbracket⟩ := join_start hne hparts
  have hline : join "." parts ++ lit " = " ++ s =
      join "." parts ++ codePoint ' ' :: codePoint '=' :: codePoint ' ' :: s := by
    simp [lit]
  have hone : ∀ u : Str, startsWith (join "." parts ++ u) (lit "[") = false := by
    intro u
    rw [hct]
    exact startsWith_cons_of_ne hbracket.symm _ _
  have htwo : ∀ u : Str, startsWith (join "." parts ++ u) (lit "[[") = false := by
    intro u
    rw [hct]
    exact startsWith_cons_of_ne hbracket.symm _ _
  have hkey : readKey ((join "." parts ++ codePoint ' ' :: codePoint '=' :: codePoint ' ' ::
      s).length + 1) (join "." parts ++ codePoint ' ' :: codePoint '=' :: codePoint ' ' :: s) =
        some (parts, codePoint '=' :: codePoint ' ' :: s) := by
    refine readKey_parts hne hparts (by decide) rfl (by decide) ?_
    have hlength := length_le_join hparts
    rw [List.length_append]
    omega
  have hequals : startsWith (codePoint '=' :: codePoint ' ' :: s) (lit "=") = true := rfl
  have hskip : skipSpace (codePoint ' ' :: s) = skipSpace s := rfl
  rw [hline, readStatement, htwo, if_neg Bool.false_ne_true, hone, if_neg Bool.false_ne_true, hkey]
  simp only [Option.bind_eq_bind, Option.bind_some, hequals, if_true, List.tail_cons, hskip]
  rw [Option.map_eq_bind]
  rfl

/-- `name = value`, for a value that ends where its text does. -/
theorem readsAs_entry {parts : List Str} {text : Str} {value : Toml} (hne : parts ≠ [])
    (hparts : ∀ part ∈ parts, BareKey part)
    (htext : ∀ rest, skipSpace (text ++ rest) = text ++ rest)
    (hvalue : ∀ rest, readValue otherValue (text ++ codePoint '\n' :: rest) =
      some (value, codePoint '\n' :: rest)) :
    ReadsAs otherValue (join "." parts ++ lit " = " ++ text) [.entry parts value] := by
  obtain ⟨c, t, hct, hspace, hnewline, hcomment, -⟩ := join_start hne hparts
  have hread : ∀ rest, readStatement otherValue
      (join "." parts ++ lit " = " ++ text ++ codePoint '\n' :: rest) =
        some (.entry parts value, codePoint '\n' :: rest) := by
    intro rest
    rw [List.append_assoc, readStatement_parts hne hparts, htext, hvalue]
    rfl
  rw [hct] at hread ⊢
  exact readsAs_statement hspace hnewline hcomment hread

/-- A string between quotes. -/
theorem readsAs_string {parts : List Str} {s : Str} (hne : parts ≠ [])
    (hparts : ∀ part ∈ parts, BareKey part) (hs : PlainString s) :
    ReadsAs otherValue (join "." parts ++ lit " = " ++ (lit "\"" ++ s ++ lit "\""))
      [.entry parts (.str s)] := by
  refine readsAs_entry hne hparts (fun rest => skipSpace_of_ne (by decide) _) fun rest => ?_
  have hline : lit "\"" ++ s ++ lit "\"" ++ codePoint '\n' :: rest =
      codePoint '"' :: (s ++ codePoint '"' :: codePoint '\n' :: rest) := by
    simp [lit]
  have htriple : startsWith (codePoint '"' :: (s ++ codePoint '"' :: codePoint '\n' :: rest))
      (lit "\"\"\"") = false := by
    cases s with
    | nil => rfl
    | cons c s =>
      have hc := (hs c List.mem_cons_self).1
      change startsWith (codePoint '"' :: c :: _) [codePoint '"', codePoint '"', codePoint '"'] = false
      simp [startsWith, List.isPrefixOf, Ne.symm hc]
  have hstart : startsWith (codePoint '"' :: (s ++ codePoint '"' :: codePoint '\n' :: rest))
      (lit "\"") = true := rfl
  rw [hline, readValue, htriple, if_neg Bool.false_ne_true, hstart, if_pos rfl, List.tail_cons,
    readOneLineBasic_plain hs]
  rfl

/-- `true` -/
theorem readsAs_true {k : Str} (hk : BareKey k) :
    ReadsAs otherValue (k ++ lit " = " ++ lit "true") [.entry [k] (.bool true)] :=
  readsAs_entry (List.cons_ne_nil k []) (List.forall_mem_singleton.mpr hk)
    (fun _ => skipSpace_of_ne (by decide) _) fun _ => rfl

/-! ## What lines are read as -/

theorem readStatements_unlines {lines : List (Str × List TomlStatement)}
    (h : ∀ line ∈ lines, ReadsAs otherValue line.1 line.2) (fuel : Nat) :
    readStatements otherValue (fuel + 1 + lines.length)
        (unlines (codePoint '\n') (lines.map Prod.fst)) =
      some (lines.flatMap Prod.snd) := by
  induction lines with
  | nil =>
    rw [List.length_nil, Nat.add_zero, readStatements]
    rfl
  | cons line lines ih =>
    rw [List.forall_mem_cons] at h
    have hcons : unlines (codePoint '\n') ((line :: lines).map Prod.fst) =
        line.1 ++ codePoint '\n' :: unlines (codePoint '\n') (lines.map Prod.fst) := by simp [unlines]
    rw [hcons, List.length_cons, ← Nat.add_assoc, h.1, ih h.2]
    rfl

/-! ## Lines that are refused -/

variable (otherValue) in
/-- A line that makes a text no TOML, whatever stands behind it. -/
def Refuses (line : Str) : Prop :=
  ∀ fuel rest, readStatements otherValue fuel (line ++ codePoint '\n' :: rest) = none

/-- A character that ends a bare key and that nothing may follow it with. -/
def stopsKey (c : CodePoint) : Bool :=
  !isBareKeyChar c && !(lit ". \t=\"'[#\n").contains c

/-- A string that cannot stand between quotes: a quote closes it before its end, or it has
a control character or an escape that TOML does not know. -/
def BreaksString (s : Str) : Prop :=
  ∃ p c t, s = p ++ c :: t ∧ PlainString p ∧
    ((c = codePoint '"' ∧ (p = [] → ∃ d u, t = d :: u ∧ d ≠ codePoint '"') ∧
        ∀ d ∈ t.head?, (lit " \t#\n").contains d = false) ∨
      isIllegal c = true ∨
      (c = codePoint '\\' ∧ ∃ d u, t = d :: u ∧ d ≠ codePoint 'u' ∧ d ≠ codePoint 'U' ∧
        escapeChar? d = none))

/-- A line that starts a statement, which is refused, or which the rest of the line is no
end of. -/
theorem refuses_statement {c : CodePoint} {t : Str}
    (hspace : isTomlSpace c = false) (hnewline : isNewline c = false) (hcomment : c ≠ codePoint '#')
    (hread : ∀ rest, ((readStatement otherValue (c :: t ++ codePoint '\n' :: rest)).bind
      fun read => finishLine read.2) = none) :
    Refuses otherValue (c :: t) := by
  intro fuel rest
  cases fuel with
  | zero => rfl
  | succ fuel =>
    have hskip : skipSpace (c :: t ++ codePoint '\n' :: rest) =
        c :: (t ++ codePoint '\n' :: rest) := skipSpace_of_ne hspace _
    have hread' := hread rest
    rw [List.cons_append] at hread'
    rw [readStatements, hskip]
    simp only [hnewline, Bool.false_or, beq_iff_eq, if_neg hcomment]
    cases hstatement : readStatement otherValue (c :: (t ++ codePoint '\n' :: rest)) with
    | none => rfl
    | some read =>
      rw [hstatement, Option.bind_some] at hread'
      simp [hread']

/-- A name with a character that no key has. -/
theorem refuses_key {p t : Str} {d : CodePoint} (hp : ∀ c ∈ p, isBareKeyChar c = true)
    (hd : stopsKey d = true) : Refuses otherValue (p ++ d :: t) := by
  rw [stopsKey, Bool.and_eq_true, Bool.not_eq_true', Bool.not_eq_true'] at hd
  obtain ⟨hbare, hother⟩ := hd
  have hd_ne : ∀ e ∈ lit ". \t=\"'[#\n", d ≠ e := by
    rintro e he rfl
    rw [List.contains_iff_mem.mpr he] at hother
    cases hother
  have hfirst : ∃ c u, p ++ d :: t = c :: u ∧ ∀ e ∈ lit " \t[#\n", c ≠ e := by
    cases p with
    | nil =>
      refine ⟨d, t, rfl, fun e he => hd_ne e ?_⟩
      have hsub : ((lit " \t[#\n").all fun e => (lit ". \t=\"'[#\n").contains e) = true := by decide
      exact List.contains_iff_mem.mp (List.all_eq_true.mp hsub e he)
    | cons c p =>
      refine ⟨c, p ++ d :: t, rfl, fun e he => ?_⟩
      have hnot : ((lit " \t[#\n").all fun e => !isBareKeyChar e) = true := by decide
      have he_not := List.all_eq_true.mp hnot e he
      rw [Bool.not_eq_true'] at he_not
      exact ne_of_isBareKeyChar (hp c List.mem_cons_self) he_not
  obtain ⟨c, u, hcu, hc⟩ := hfirst
  have hblank : c ≠ codePoint ' ' := hc _ (by decide)
  have htab : c ≠ codePoint '\t' := hc _ (by decide)
  have hbracket : c ≠ codePoint '[' := hc _ (by decide)
  have hread : ∀ s : Str, readStatement otherValue (p ++ d :: s) = none := by
    intro s
    have hstart : ∀ s u : Str, p ++ d :: s = c :: u → startsWith (c :: u) (lit "[") = false ∧
        startsWith (c :: u) (lit "[[") = false := fun _ _ _ =>
      ⟨startsWith_cons_of_ne hbracket.symm _ _, startsWith_cons_of_ne hbracket.symm _ _⟩
    have hhead : ∃ u, p ++ d :: s = c :: u := by
      cases p with
      | nil => exact ⟨s, by rw [← (List.cons.inj hcu).1]; rfl⟩
      | cons e p => exact ⟨p ++ d :: s, by rw [← (List.cons.inj hcu).1]; rfl⟩
    obtain ⟨v, hv⟩ := hhead
    have hkey : (readKey ((p ++ d :: s).length + 1) (p ++ d :: s)).bind
        (fun read => if startsWith read.2 (lit "=") then some read else none) = none := by
      cases p with
      | nil =>
        have hpart : readKeyPart (d :: s) = none := by
          have hsingle : d ≠ 0x27 := hd_ne _ (by decide)
          have hdouble : d ≠ codePoint '"' := hd_ne _ (by decide)
          simp [readKeyPart, hbare, hsingle, hdouble]
        rw [List.nil_append, readKey, hpart]
        rfl
      | cons e p =>
        have hblank' : isTomlSpace d = false := by
          have hblank : d ≠ codePoint ' ' := hd_ne _ (by decide)
          have htab : d ≠ codePoint '\t' := hd_ne _ (by decide)
          simp [isTomlSpace, hblank, htab]
        have hequals : startsWith (d :: s) (lit "=") = false :=
          startsWith_cons_of_ne (hd_ne (codePoint '=') (by decide)).symm _ _
        rw [readKey_bare ⟨List.cons_ne_nil _ _, hp⟩ hbare (skipSpace_of_ne hblank' s)
          (hd_ne _ (by decide)), Option.bind_some, hequals]
        rfl
    rw [readStatement, hv, (hstart s v hv).2, if_neg Bool.false_ne_true, (hstart s v hv).1,
      if_neg Bool.false_ne_true, ← hv]
    cases hread : readKey ((p ++ d :: s).length + 1) (p ++ d :: s) with
    | none => rfl
    | some read =>
      rw [hread, Option.bind_some] at hkey
      split_ifs at hkey with hequals
      simp [hequals]
  rw [hcu]
  refine refuses_statement (by simp [isTomlSpace, hblank, htab]) ?_ (hc _ (by decide)) fun rest => ?_
  · have hnewline : c ≠ codePoint '\n' := hc _ (by decide)
    simp [isNewline, hnewline]
  · rw [← hcu, List.append_assoc, List.cons_append, hread]
    rfl

/-- Something stands behind the value. -/
theorem finishLine_none {d : CodePoint} (hd : (lit " \t#\n").contains d = false) (s : Str) :
    finishLine (d :: s) = none := by
  have hne : ∀ e ∈ lit " \t#\n", d ≠ e := by
    rintro e he rfl
    rw [List.contains_iff_mem.mpr he] at hd
    cases hd
  have hblank : d ≠ codePoint ' ' := hne _ (by decide)
  have htab : d ≠ codePoint '\t' := hne _ (by decide)
  have hnewline : d ≠ codePoint '\n' := hne _ (by decide)
  have hskip : skipSpace (d :: s) = d :: s := skipSpace_of_ne (by simp [isTomlSpace, hblank, htab]) s
  have hcomment : startsWith (d :: s) (lit "#") = false :=
    startsWith_cons_of_ne (hne (codePoint '#') (by decide)).symm _ _
  simp [finishLine, hskip, hcomment, isNewline, hnewline]

/-- What a string on one line is cut off by is refused. -/
theorem readOneLineBasic_none {c : CodePoint} {t : Str}
    (h : isIllegal c = true ∨ c = codePoint '\\' ∧ ∃ d u, t = d :: u ∧ d ≠ codePoint 'u' ∧
      d ≠ codePoint 'U' ∧ escapeChar? d = none) : readOneLineBasic (c :: t) = none := by
  rcases h with hillegal | ⟨rfl, d, u, rfl, hsmall, hlarge, hescape⟩
  · have hquote : c ≠ codePoint '"' := by
      rintro rfl
      exact absurd hillegal (by decide)
    have hslash : c ≠ codePoint '\\' := by
      rintro rfl
      exact absurd hillegal (by decide)
    rw [readOneLineBasic, readBasic, if_neg hquote, if_neg hslash, if_pos hillegal]
  · have hread : readEscape (d :: u) = none := by
      rw [readEscape, if_neg hsmall, if_neg hlarge, hescape]
      rfl
    rw [readOneLineBasic, readBasic, if_neg (by decide), if_pos rfl, hread]
    rfl

/-- A range that cannot stand between quotes. -/
theorem refuses_string {k s : Str} (hk : BareKey k) (hs : BreaksString s) :
    Refuses otherValue (k ++ lit " = " ++ (lit "\"" ++ s ++ lit "\"")) := by
  obtain ⟨c, t, hct, hspace, hnewline, hcomment, -⟩ := bareKey_start hk
  have hread : ∀ rest, ((readStatement otherValue
      (k ++ lit " = " ++ (lit "\"" ++ s ++ lit "\"") ++ codePoint '\n' :: rest)).bind
        fun read => finishLine read.2) = none := by
    intro rest
    obtain ⟨p, e, u, rfl, hp, hcase⟩ := hs
    have hline : lit "\"" ++ (p ++ e :: u) ++ lit "\"" ++ codePoint '\n' :: rest =
        codePoint '"' :: (p ++ e :: (u ++ codePoint '"' :: codePoint '\n' :: rest)) := by
      simp [lit]
    generalize htail : u ++ codePoint '"' :: codePoint '\n' :: rest = tail at hline
    have htriple : startsWith (codePoint '"' :: (p ++ e :: tail)) (lit "\"\"\"") = false := by
      cases p with
      | cons d p =>
        have hd : codePoint '"' ≠ d := (hp d List.mem_cons_self).1.symm
        change startsWith (codePoint '"' :: d :: _) [codePoint '"', codePoint '"', codePoint '"'] =
          false
        simp [startsWith, List.isPrefixOf, hd]
      | nil =>
        change startsWith (codePoint '"' :: e :: tail)
          [codePoint '"', codePoint '"', codePoint '"'] = false
        rcases hcase with ⟨-, hnext, -⟩ | hbreak
        · obtain ⟨d, v, rfl, hd⟩ := hnext rfl
          rw [← htail]
          simp [startsWith, List.isPrefixOf, hd.symm]
        · have he : codePoint '"' ≠ e := by
            rcases hbreak with hillegal | ⟨rfl, -⟩
            · rintro rfl
              exact absurd hillegal (by decide)
            · decide
          simp [startsWith, List.isPrefixOf, he]
    have hstart : startsWith (codePoint '"' :: (p ++ e :: tail)) (lit "\"") = true := rfl
    have hskip : skipSpace (codePoint '"' :: (p ++ e :: tail)) = codePoint '"' :: (p ++ e :: tail) :=
      skipSpace_of_ne (by decide) _
    have hentry := @readStatement_parts otherValue [k] (List.cons_ne_nil k [])
      (List.forall_mem_singleton.mpr hk)
    rw [show join "." [k] = k from rfl] at hentry
    rw [List.append_assoc, hline, hentry, hskip, readValue, htriple,
      if_neg Bool.false_ne_true, hstart, if_pos rfl, List.tail_cons, readOneLineBasic_append hp]
    rcases hcase with ⟨rfl, -, hbehind⟩ | hbreak
    · -- The quote closes the string, and more stands behind it.
      have hclose : readOneLineBasic (codePoint '"' :: tail) = some ([], tail) := rfl
      have hfinish : finishLine tail = none := by
        rw [← htail]
        cases u with
        | nil => exact finishLine_none (by decide) _
        | cons d u => exact finishLine_none (hbehind d rfl) _
      rw [hclose]
      exact hfinish
    · have hnone : readOneLineBasic (e :: tail) = none := by
        refine readOneLineBasic_none (hbreak.imp id ?_)
        rintro ⟨rfl, d, v, rfl, hd⟩
        exact ⟨rfl, d, _, htail.symm, hd⟩
      rw [hnone]
      rfl
  subst hct
  exact refuses_statement hspace hnewline hcomment hread

/-- One line that is refused spoils the text. -/
theorem readStatements_refused {lines : List (Str × List TomlStatement)}
    (h : ∀ line ∈ lines, ReadsAs otherValue line.1 line.2 ∨ Refuses otherValue line.1)
    (hrefused : ∃ line ∈ lines, Refuses otherValue line.1) (fuel : Nat) :
    readStatements otherValue fuel (unlines (codePoint '\n') (lines.map Prod.fst)) = none := by
  induction lines generalizing fuel with
  | nil =>
    obtain ⟨line, hline, -⟩ := hrefused
    cases hline
  | cons line lines ih =>
    rw [List.forall_mem_cons] at h
    have hcons : unlines (codePoint '\n') ((line :: lines).map Prod.fst) =
        line.1 ++ codePoint '\n' :: unlines (codePoint '\n') (lines.map Prod.fst) := by simp [unlines]
    rw [hcons]
    by_cases hline : Refuses otherValue line.1
    · exact hline fuel _
    · have hrest : ∃ other ∈ lines, Refuses otherValue other.1 := by
        obtain ⟨other, hother, hrefuses⟩ := hrefused
        rcases List.mem_cons.mp hother with rfl | hother
        · exact absurd hrefuses hline
        · exact ⟨other, hother, hrefuses⟩
      cases fuel with
      | zero => rfl
      | succ fuel =>
        rw [h.1.resolve_right hline, ih h.2 hrest]
        rfl

/-! ## The document of a list of tables -/

theorem put_of_absent {α : Type} {k : Str} {v : α} {items : List (Str × α)} (h : k ∉ items.map Prod.fst) :
    Dict.put k v items = items ++ [(k, v)] := by
  induction items with
  | nil => rfl
  | cons item items ih =>
    rw [List.map_cons, List.mem_cons, not_or] at h
    rw [Dict.put, if_neg (Ne.symm h.1), ih h.2, List.cons_append]

theorem put_last {k : Str} {v w : Toml} {items : Document} (h : k ∉ items.map Prod.fst) :
    Dict.put k v (items ++ [(k, w)]) = items ++ [(k, v)] := by
  induction items with
  | nil => simp [Dict.put]
  | cons item items ih =>
    rw [List.map_cons, List.mem_cons, not_or] at h
    rw [List.cons_append, Dict.put, if_neg (Ne.symm h.1), ih h.2, List.cons_append]

theorem find?_last {k : Str} {v : Toml} {items : Document} (h : k ∉ items.map Prod.fst) :
    Dict.find? k (items ++ [(k, v)]) = some v := by
  induction items with
  | nil => simp [Dict.find?_cons]
  | cons item items ih =>
    rw [List.map_cons, List.mem_cons, not_or] at h
    rw [List.cons_append, Dict.find?_cons, if_neg (Ne.symm h.1), ih h.2]

/-- The statements of a table: its header, and an entry for each item. -/
def tableStatements (table : Str × Document) : List TomlStatement :=
  .opens [table.1] :: table.2.map fun item => .entry [item.1] item.2

/-- An entry is added to the last table. -/
theorem apply_entry {front items : Document} {h k : Str} {v : Toml} {ex : List (List Str)}
    (hh : h ∉ front.map Prod.fst) (hk : k ∉ items.map Prod.fst) (hv : isContainer v = false) :
    TomlOutput.apply ⟨front ++ [(h, .table items)], [h], [], ex, []⟩ (.entry [k] v) =
      some ⟨front ++ [(h, .table (items ++ [(k, v)]))], [h], [], ex, []⟩ := by
  have hnew : addNew k v items = some (items ++ [(k, v)]) := by
    rw [addNew, Dict.find?_eq_none hk, put_of_absent hk]
    rfl
  have hnest : nestAt (addNew k v) [h] (front ++ [(h, .table items)]) =
      some (front ++ [(h, .table (items ++ [(k, v)]))]) := by
    rw [nestAt, find?_last hh]
    simp only [nestAt, hnew, Option.bind_eq_bind, Option.bind_some, Option.pure_def]
    rw [put_last hh]
  simp [TomlOutput.apply, TomlOutput.isFrozen, hnest, hv]

theorem foldlM_entries {front : Document} {h : Str} (ex : List (List Str))
    (hh : h ∉ front.map Prod.fst) (added items : Document)
    (hnodup : ((items ++ added).map Prod.fst).Nodup) (hv : ∀ item ∈ added, isContainer item.2 = false) :
    (added.map fun item => TomlStatement.entry [item.1] item.2).foldlM TomlOutput.apply
        ⟨front ++ [(h, .table items)], [h], [], ex, []⟩ =
      some ⟨front ++ [(h, .table (items ++ added))], [h], [], ex, []⟩ := by
  induction added generalizing items with
  | nil => simp
  | cons item added ih =>
    rw [List.forall_mem_cons] at hv
    have hk : item.1 ∉ items.map Prod.fst := by
      rw [List.map_append, List.nodup_append] at hnodup
      intro hmem
      exact hnodup.2.2 item.1 hmem item.1 List.mem_cons_self rfl
    have hnext : ((items ++ [item] ++ added).map Prod.fst).Nodup := by
      rw [List.append_assoc]
      exact hnodup
    rw [List.map_cons, List.foldlM_cons, apply_entry hh hk hv.1]
    have hrest := ih (items ++ [item]) hnext hv.2
    rw [List.append_assoc] at hrest
    exact hrest

/-- A header opens a new table. -/
theorem apply_opens {data : Document} {header : List Str} {h : Str} {ex : List (List Str)}
    (hh : h ∉ data.map Prod.fst) (hex : [h] ∉ ex) :
    TomlOutput.apply ⟨data, header, [], ex, []⟩ (.opens [h]) =
      some ⟨data ++ [(h, .table [])], [h], [], [h] :: ex, []⟩ := by
  have hnest : nestAt some [h] data = some (data ++ [(h, .table [])]) := by
    rw [nestAt, Dict.find?_eq_none hh]
    simp only [nestAt, Option.bind_eq_bind, Option.bind_some, Option.pure_def]
    rw [put_of_absent hh]
  simp [TomlOutput.apply, TomlOutput.finalizePending, TomlOutput.isFrozen, TomlOutput.isExplicit,
    hnest, hex]

/-- Tables with distinct names are added to the document one by one. -/
theorem foldlM_tables (tables : List (Str × Document)) (data : Document) (header : List Str)
    (ex : List (List Str)) (hnodup : (data.map Prod.fst ++ tables.map Prod.fst).Nodup)
    (hex : ∀ key ∈ ex, ∃ k ∈ data.map Prod.fst, key = [k])
    (hitems : ∀ table ∈ tables, (table.2.map Prod.fst).Nodup ∧
      ∀ item ∈ table.2, isContainer item.2 = false) :
    ((tables.flatMap tableStatements).foldlM TomlOutput.apply ⟨data, header, [], ex, []⟩).map
        TomlOutput.data =
      some (data ++ tables.map fun table => (table.1, .table table.2)) := by
  induction tables generalizing data header ex with
  | nil => simp
  | cons table tables ih =>
    rw [List.forall_mem_cons] at hitems
    have hh : table.1 ∉ data.map Prod.fst := by
      rw [List.nodup_append] at hnodup
      intro hmem
      exact hnodup.2.2 table.1 hmem table.1 List.mem_cons_self rfl
    have hnot : [table.1] ∉ ex := by
      intro hmem
      obtain ⟨k, hk, heq⟩ := hex _ hmem
      rw [List.cons.injEq] at heq
      exact hh (heq.1 ▸ hk)
    have hentries := foldlM_entries ([table.1] :: ex) hh table.2 [] hitems.1.1 hitems.1.2
    rw [List.flatMap_cons, tableStatements, List.cons_append, List.foldlM_cons, apply_opens hh hnot,
      Option.bind_eq_bind, Option.bind_some, List.foldlM_append, hentries, Option.bind_eq_bind,
      Option.bind_some, ih]
    · simp
    · rw [List.map_append, List.append_assoc]
      exact hnodup
    · intro key hkey
      rw [List.map_append]
      rcases List.mem_cons.mp hkey with rfl | hkey
      · exact ⟨table.1, by simp, rfl⟩
      · obtain ⟨k, hk, heq⟩ := hex key hkey
        exact ⟨k, List.mem_append_left _ hk, heq⟩
    · exact hitems.2

theorem documentOf_tables {tables : List (Str × Document)} (hnodup : (tables.map Prod.fst).Nodup)
    (hitems : ∀ table ∈ tables, (table.2.map Prod.fst).Nodup ∧
      ∀ item ∈ table.2, isContainer item.2 = false) :
    documentOf (tables.flatMap tableStatements) =
      some (tables.map fun table => (table.1, .table table.2)) := by
  have h := foldlM_tables tables [] [] [] hnodup (fun _ h => absurd h List.not_mem_nil) hitems
  rw [List.nil_append] at h
  exact h

/-! ## Tables inside a section -/

/-- Some value of the items is no string. -/
def HoldsOther (items : Document) : Prop :=
  ∃ k v, Dict.find? k items = some v ∧ ∀ s, v ≠ .str s

/-- A path through a key leaves something at the key that is no string. -/
theorem nestAt_cons {change : Document → Option Document} {k : Str} {key : List Str}
    {items items' : Document} (h : nestAt change (k :: key) items = some items') :
    ∃ v, items' = Dict.put k v items ∧ ∀ s, v ≠ .str s := by
  rw [nestAt] at h
  split at h
  · obtain ⟨nest, -, heq⟩ := Option.bind_eq_some_iff.mp h
    exact ⟨.table nest, (Option.some.inj heq).symm, fun _ hs => nomatch hs⟩
  · obtain ⟨nest, -, heq⟩ := Option.bind_eq_some_iff.mp h
    exact ⟨.table nest, (Option.some.inj heq).symm, fun _ hs => nomatch hs⟩
  · split at h
    · obtain ⟨nest, -, heq⟩ := Option.bind_eq_some_iff.mp h
      exact ⟨.arr _, (Option.some.inj heq).symm, fun _ hs => nomatch hs⟩
    · cases h
  · cases h

/-- A path through a table changes that table. -/
theorem nestAt_table {change : Document → Option Document} {k : Str} {key : List Str}
    {items items' nest : Document} (hk : Dict.find? k items = some (.table nest))
    (h : nestAt change (k :: key) items = some items') :
    ∃ nest', nestAt change key nest = some nest' ∧ items' = Dict.put k (.table nest') items := by
  rw [nestAt, hk] at h
  obtain ⟨nest', hnest, heq⟩ := Option.bind_eq_some_iff.mp h
  exact ⟨nest', hnest, (Option.some.inj heq).symm⟩

/-- What is there stays there when a key is added. -/
theorem HoldsOther.addNew {key : Str} {value : Toml} {items items' : Document}
    (h : HoldsOther items) (hadd : addNew key value items = some items') : HoldsOther items' := by
  obtain ⟨k, v, hv, hother⟩ := h
  rw [Project.addNew] at hadd
  split_ifs at hadd with hkey
  cases hadd
  refine ⟨k, v, ?_, hother⟩
  rw [Dict.find?_put, if_neg]
  · exact hv
  · rintro rfl
    rw [hv] at hkey
    exact hkey rfl

/-- An entry of a section changes the table of the section, and a dotted key leaves a table
in it. -/
theorem apply_entry_section {out out' : TomlOutput} {h : Str} {nest : Document} {key : List Str}
    {value : Toml} (hheader : out.header = [h]) (hnest : Dict.find? h out.data = some (.table nest))
    (happly : out.apply (.entry key value) = some out') :
    out'.header = [h] ∧ ∃ nest', out'.data = Dict.put h (.table nest') out.data ∧
      (HoldsOther nest ∨ 2 ≤ key.length → HoldsOther nest') := by
  rw [TomlOutput.apply] at happly
  obtain ⟨stem, hstem, happly⟩ := Option.bind_eq_some_iff.mp happly
  obtain ⟨-, -, happly⟩ := Option.bind_eq_some_iff.mp happly
  obtain ⟨-, -, happly⟩ := Option.bind_eq_some_iff.mp happly
  obtain ⟨data, hdata, happly⟩ := Option.bind_eq_some_iff.mp happly
  cases happly
  rw [hheader, List.singleton_append] at hdata
  obtain ⟨nest', hnest', hput⟩ := nestAt_table hnest hdata
  refine ⟨hheader, nest', hput, ?_⟩
  match key, hnest' with
  | [], hnest' => cases hstem
  | [k], hnest' =>
    rintro (hother | hlength)
    · exact hother.addNew hnest'
    · exact absurd hlength (by simp)
  | k :: second :: more, hnest' =>
    intro _
    obtain ⟨v, hv, hother⟩ := nestAt_cons hnest'
    refine ⟨k, v, ?_, hother⟩
    rw [hv, Dict.find?_put, if_pos rfl]

/-- The entries of a section. -/
theorem foldlM_entries_section {h : Str} (entries : List (List Str × Toml)) {out out' : TomlOutput}
    {nest : Document} (hheader : out.header = [h])
    (hnest : Dict.find? h out.data = some (.table nest))
    (hrun : (entries.map fun entry => TomlStatement.entry entry.1 entry.2).foldlM TomlOutput.apply out =
      some out') :
    ∃ nest', Dict.find? h out'.data = some (.table nest') ∧
      (HoldsOther nest ∨ (∃ entry ∈ entries, 2 ≤ entry.1.length) → HoldsOther nest') ∧
        ∀ k, k ≠ h → Dict.find? k out'.data = Dict.find? k out.data := by
  induction entries generalizing out nest with
  | nil =>
    cases hrun
    refine ⟨nest, hnest, ?_, fun _ _ => rfl⟩
    rintro (hother | ⟨entry, hentry, -⟩)
    · exact hother
    · cases hentry
  | cons entry entries ih =>
    rw [List.map_cons, List.foldlM_cons] at hrun
    obtain ⟨next, hnext, hrun⟩ := Option.bind_eq_some_iff.mp hrun
    obtain ⟨hheader', nest', hput, hother⟩ := apply_entry_section hheader hnest hnext
    have hfind : Dict.find? h next.data = some (.table nest') := by
      rw [hput, Dict.find?_put, if_pos rfl]
    obtain ⟨last, hlast, hother', hkeep⟩ := ih hheader' hfind hrun
    refine ⟨last, hlast, ?_, fun k hk => ?_⟩
    · rintro (h | ⟨long, hlong, hlength⟩)
      · exact hother' (Or.inl (hother (Or.inl h)))
      · rcases List.mem_cons.mp hlong with rfl | hlong
        · exact hother' (Or.inl (hother (Or.inr hlength)))
        · exact hother' (Or.inr ⟨long, hlong, hlength⟩)
    · rw [hkeep k hk, hput, Dict.find?_put, if_neg hk]

/-- A header of a section that is not there yet. -/
theorem apply_opens_section {out out' : TomlOutput} {h : Str} (hnew : Dict.find? h out.data = none)
    (happly : out.apply (.opens [h]) = some out') :
    out'.header = [h] ∧ Dict.find? h out'.data = some (.table []) ∧
      ∀ k, k ≠ h → Dict.find? k out'.data = Dict.find? k out.data := by
  rw [TomlOutput.apply] at happly
  obtain ⟨-, -, happly⟩ := Option.bind_eq_some_iff.mp happly
  obtain ⟨data, hdata, happly⟩ := Option.bind_eq_some_iff.mp happly
  cases happly
  have hput : data = Dict.put h (.table []) out.data := by
    have hfind : Dict.find? h out.finalizePending.data = none := hnew
    rw [nestAt, hfind] at hdata
    exact (Option.some.inj hdata).symm
  refine ⟨rfl, ?_, fun k hk => ?_⟩
  · change Dict.find? h data = _
    rw [hput, Dict.find?_put, if_pos rfl]
  · change Dict.find? k data = _
    rw [hput, Dict.find?_put, if_neg hk]

/-- `_str_dict` wants strings. -/
theorem strDict_refuses {data : Document} {key : Str} {nest : Document} {d : Dict Str Str}
    (hdata : Dict.find? key data = some (.table nest)) (hother : HoldsOther nest) :
    strDict data key ≠ .ok d := by
  intro hok
  obtain ⟨k, v, hv, hstr⟩ := hother
  have hne : nest ≠ [] := by
    rintro rfl
    cases hv
  have hraw : rawSection data key = .table nest := by
    cases nest with
    | nil => exact absurd rfl hne
    | cons item nest =>
      rw [rawSection, hdata]
      rfl
  have hall : ∀ (items : Document) (out d : Dict Str Str),
      items.foldlM (strDictEntry key) out = .ok d → ∀ item ∈ items, ∃ s, item.2 = .str s := by
    intro items
    induction items with
    | nil => exact fun _ _ _ _ h => absurd h List.not_mem_nil
    | cons item items ih =>
      intro out d hfold
      rw [List.foldlM_cons] at hfold
      obtain ⟨next, hnext, hrest⟩ := bind_eq_ok.mp hfold
      have hitem : ∃ s, item.2 = .str s := by
        unfold strDictEntry at hnext
        split at hnext
        · rename_i s hs
          exact ⟨s, hs⟩
        · cases hnext
      rintro other hother
      rcases List.mem_cons.mp hother with rfl | hother
      · exact hitem
      · exact ih next d hrest other hother
  rw [strDict, sectionTable, hraw] at hok
  obtain ⟨s, hs⟩ := hall nest .empty d hok (k, v) (Dict.mem_of_find? hv)
  exact hstr s hs

/-! ## Texts of lines -/

theorem no_return_unlines {lines : List Str} (h : ∀ line ∈ lines, codePoint '\r' ∉ line) :
    codePoint '\r' ∉ unlines (codePoint '\n') lines := by
  intro hmem
  obtain ⟨line, hline, hc⟩ := List.mem_flatMap.mp hmem
  rcases List.mem_append.mp hc with hc | hc
  · exact h line hline hc
  · exact absurd (List.mem_singleton.mp hc) (by decide)

/-- Only a text with carriage returns is changed before it is read. -/
theorem loadsToml_of_no_return {text : Str} (h : codePoint '\r' ∉ text) :
    loadsToml otherValue text =
      (readStatements otherValue (text.length + 1) text).bind documentOf := by
  have hsrc : replaceText (lit "\r\n") (lit "\n") text = text := by
    have hcases := @replaceText_cases (lit "\r\n") (lit "\n") (by decide) text
    rcases hcases with ⟨-, heq⟩ | ⟨before, after, heq, -, -⟩
    · exact heq
    · rw [heq] at h
      exact absurd (List.mem_append_right _ (List.mem_append_left _ (by decide))) h
  rw [loadsToml, hsrc]
  rfl

/-- A text of lines that are read is read, when it holds no carriage return. -/
theorem loadsToml_unlines {lines : List (Str × List TomlStatement)}
    (h : ∀ line ∈ lines, ReadsAs otherValue line.1 line.2)
    (hreturn : codePoint '\r' ∉ unlines (codePoint '\n') (lines.map Prod.fst)) :
    loadsToml otherValue (unlines (codePoint '\n') (lines.map Prod.fst)) =
      documentOf (lines.flatMap Prod.snd) := by
  have hlength : lines.length ≤ (unlines (codePoint '\n') (lines.map Prod.fst)).length := by
    have hall : ∀ lines : List Str, lines.length ≤ (unlines (codePoint '\n') lines).length := by
      intro lines
      induction lines with
      | nil => exact Nat.le_refl _
      | cons line lines ih =>
        rw [unlines, List.flatMap_cons, List.length_append, List.length_append]
        rw [unlines] at ih
        simp only [List.length_cons, List.length_nil]
        omega
    have h := hall (lines.map Prod.fst)
    rw [List.length_map] at h
    exact h
  obtain ⟨fuel, hfuel⟩ := Nat.exists_eq_add_of_le hlength
  rw [loadsToml_of_no_return hreturn, hfuel, Nat.add_comm lines.length fuel, Nat.add_right_comm,
    readStatements_unlines h]
  rfl

/-- A text with a line that is refused is not read. -/
theorem loadsToml_refused {lines : List (Str × List TomlStatement)}
    (h : ∀ line ∈ lines, ReadsAs otherValue line.1 line.2 ∨ Refuses otherValue line.1)
    (hrefused : ∃ line ∈ lines, Refuses otherValue line.1)
    (hreturn : codePoint '\r' ∉ unlines (codePoint '\n') (lines.map Prod.fst)) :
    loadsToml otherValue (unlines (codePoint '\n') (lines.map Prod.fst)) = none := by
  rw [loadsToml_of_no_return hreturn, readStatements_refused h hrefused]
  rfl

end DevRepro.Project
