import DevRepro.Python.Words

/-!
# Commands of a shell line

`_split_command_line`, `_program_of` and `_command_key` of `agents/manifest.py`.

`split_again` is the round trip that a generated manifest rests on: a command
that was split off a line is split into itself again, when it does not start like
a comment and does not end with a backslash.
-/

namespace DevRepro.Agents

open DevRepro.Python

/-- What the parser takes from the interpreter. -/
structure AgentRuntime where
  /-- `str.isalnum` on one character. -/
  isAlnum : CodePoint → Bool
  isAlnum_ascii : ∀ c : CodePoint, c.val < 128 → isAlnum c =
    ((0x30 ≤ c.val && c.val ≤ 0x39) || (0x41 ≤ c.val && c.val ≤ 0x5A) ||
      (0x61 ≤ c.val && c.val ≤ 0x7A))
  /-- `str.lower`. -/
  lower : Str → Str
  lower_ascii : ∀ s : Str, (∀ c ∈ s, 0x61 ≤ c.val ∧ c.val ≤ 0x7A) → lower s = s

/-- Letters and digits of ASCII, for evaluation. -/
def AgentRuntime.standard : AgentRuntime where
  isAlnum := fun c => (0x30 ≤ c.val && c.val ≤ 0x39) || (0x41 ≤ c.val && c.val ≤ 0x5A) ||
    (0x61 ≤ c.val && c.val ≤ 0x7A)
  isAlnum_ascii := fun _ _ => rfl
  lower := fun s => s.map fun c =>
    if 0x41 ≤ c.val ∧ c.val ≤ 0x5A then c + 0x20 else c
  lower_ascii := by
    intro s h
    refine (List.map_congr_left fun c hc => if_neg ?_).trans (List.map_id' s)
    have := h c hc
    omega

/-! ## Splitting a line -/

/-- What stands behind the marker of a prompt. -/
def promptMarker : Str → Option Str
  | [] => none
  | c :: rest =>
    if c = codePoint '$' ∨ c = codePoint '>' then some rest
    else if c = codePoint '#' then
      match rest.dropWhile isSpace with
      | [] => none
      | d :: behind => if d = codePoint '$' then some behind else none
    else none

/-- `_PROMPT.sub("", line)`. -/
def dropPrompt (line : Str) : Str :=
  match promptMarker (line.dropWhile isSpace) with
  | some (d :: rest) => if isSpace d then rest.dropWhile isSpace else line
  | _ => line

/-- The text behind `&&`, `||` or `;` at the start of a text. -/
def operator? : Str → Option Str
  | [] => none
  | [c] => if c = codePoint ';' then some [] else none
  | c :: d :: behind =>
    if c = codePoint ';' then some (d :: behind)
    else if c = d ∧ (c = codePoint '&' ∨ c = codePoint '|') then some behind
    else none

theorem operator?_length {s behind : Str} (h : operator? s = some behind) :
    behind.length < s.length := by
  match s with
  | [] => cases h
  | [c] =>
    rw [operator?] at h
    split_ifs at h
    cases h
    simp
  | c :: d :: others =>
    rw [operator?] at h
    split_ifs at h <;>
    · cases h
      simp

/-- `re.split(r"&&|\|\||;", s)`. -/
def splitOperators (s : Str) : List Str :=
  match h : operator? s with
  | some behind =>
    have := operator?_length h
    [] :: splitOperators behind
  | none =>
    match s with
    | [] => [[]]
    | c :: rest =>
      match splitOperators rest with
      | [] => [[c]]
      | part :: parts => (c :: part) :: parts
termination_by s.length

theorem splitOperators_some {s behind : Str} (h : operator? s = some behind) :
    splitOperators s = [] :: splitOperators behind := by
  rw [splitOperators]
  split
  · rename_i other hother
    rw [h] at hother
    cases hother
    rfl
  · rename_i hnone
    rw [h] at hnone
    cases hnone

theorem splitOperators_nil : splitOperators [] = [[]] := by
  rw [splitOperators]
  rfl

theorem splitOperators_cons {c : CodePoint} {rest part : Str} {parts : List Str}
    (h : operator? (c :: rest) = none) (hrest : splitOperators rest = part :: parts) :
    splitOperators (c :: rest) = (c :: part) :: parts := by
  rw [splitOperators]
  split
  · rename_i other hother
    rw [h] at hother
    cases hother
  · dsimp only
    rw [hrest]

/-- `line.rstrip("\\")`. -/
def dropBackslashes (line : Str) : Str := stripEnd (fun c => c == codePoint '\\') line

/-- The text of a line without its comment and its continuation. -/
def commandText (line : Str) : Str :=
  let stripped := strip (dropBackslashes line)
  if containsText stripped " #" then strip (beforeText " #" stripped) else stripped

/-- `_split_command_line`. -/
def splitCommandLine (line : Str) : List Str :=
  let stripped := strip (dropPrompt line)
  if stripped = [] ∨ startsWith stripped "#" then []
  else
    ((splitOperators (commandText stripped)).map strip).filter fun part => part != []

/-! ## Programs and keys -/

def isQuote (c : CodePoint) : Bool := c == codePoint '"' || c == codePoint '\''

def isBracket (c : CodePoint) : Bool :=
  c == codePoint '(' || c == codePoint ')' || c == codePoint '[' || c == codePoint ']' ||
    c == codePoint '{' || c == codePoint '}' || c == codePoint ';' || c == codePoint ','

def isAsciiLetter (c : CodePoint) : Bool :=
  (0x41 ≤ c.val && c.val ≤ 0x5A) || (0x61 ≤ c.val && c.val ≤ 0x7A)

variable (rt : AgentRuntime)

/-- `VAR=value`. -/
def isAssignment (token : Str) : Bool :=
  decide (codePoint '=' ∈ token) && !startsWith token "-" &&
    match token with
    | [] => false
    | c :: rest =>
      (isAsciiLetter c || c == codePoint '_') &&
        (rest.dropWhile fun d => rt.isAlnum d || d == codePoint '_').head? == some (codePoint '=')

/-- `_program_of`. -/
def programOf (command : Str) : Str :=
  match (words command).find? fun token => !isAssignment rt token with
  | some token => stripChars isQuote token
  | none => []

def texts (lines : List String) : List Str := lines.map lit

/-- `_SHELL_KEYWORDS`. -/
def shellKeywords : List Str := texts ["if", "then", "else", "elif", "fi", "for", "while", "do",
  "done", "case", "esac", "function", "return", "export", "source", "set", "unset", "alias",
  "local", "read", "shift", "trap", "eval", "exec", "continue", "break", "wait", "declare",
  "typeset"]

/-- `_SHELL_BUILTINS`. -/
def shellBuiltins : List Str :=
  texts ["cd", "echo", "true", "false", "test", "pwd", "exit", ":"]

/-- `_PLUMBING`. -/
def plumbing : List Str := texts ["awk", "basename", "cat", "chmod", "cp", "curl", "cut", "date",
  "diff", "dirname", "du", "env", "find", "grep", "head", "id", "jq", "ln", "ls", "mkdir", "mv",
  "printf", "rm", "sed", "seq", "sha256sum", "sleep", "sort", "tail", "tar", "tee", "touch", "tr",
  "uname", "uniq", "wc", "which", "xargs", "zip", "unzip"]

/-- `Path(s).name`. -/
def pathName (s : Str) : Str :=
  ((s.splitOn (codePoint '/')).filter fun part => part != [] && part != lit ".").getLast?.getD []

/-- `Path(s).stem`. -/
def pathStem (s : Str) : Str :=
  let name := pathName s
  let extension := name.reverse.takeWhile fun c => c != codePoint '.'
  if extension ≠ [] ∧ extension.length + 1 < name.length then
    name.take (name.length - (extension.length + 1))
  else name

def pythons : List Str := texts ["python", "python3", "py"]

/-- The words of a command, without a leading `python -m`. -/
def keyWords (command : Str) : List Str :=
  match words command with
  | program :: flag :: module :: rest =>
    if pathStem program ∈ pythons ∧ flag = lit "-m" then module :: rest
    else program :: flag :: module :: rest
  | raw => raw

/-- The program of a key word, without quotes and brackets. -/
def keyProgram (token : Str) : Str := stripChars isBracket (stripChars isQuote token)

/-- Whether a first character starts the name of a program. -/
def startsProgram (c : CodePoint) : Bool :=
  rt.isAlnum c || c == codePoint '.' || c == codePoint '/' || c == codePoint '_'

/-- `_command_key`. -/
def commandKey (command : Str) : Str :=
  match (keyWords command).filter fun t => !startsWith t "-" with
  | [] => []
  | token :: others =>
    match keyProgram token with
    | [] => []
    | first :: rest =>
      let program := first :: rest
      if codePoint '=' ∈ program then []
      else if startsProgram rt first = false then []
      else if containsText command "$(" ∧ rt.isAlnum first = false then []
      else if program ∈ shellBuiltins ∨ program ∈ shellKeywords ∨ program ∈ plumbing then []
      else
        match others with
        | [] => program
        | argument :: _ => program ++ lit " " ++ argument

/-! ## What a key depends on -/

variable {rt}

/-- The key of a command is a matter of its words. -/
theorem commandKey_congr {c d : Str} (h : words c = words d) :
    commandKey rt c = commandKey rt d := by
  have hopen : ∀ e ∈ lit "$(", isSpace e = false := by
    intro e he
    rcases List.mem_cons.mp he with rfl | he
    · rfl
    · rw [List.mem_singleton.mp he]
      rfl
  have hne : lit "$(" ≠ [] := List.cons_ne_nil _ _
  have hsub : containsText c "$(" = containsText d "$(" := by
    rw [Bool.eq_iff_iff, containsText_iff, containsText_iff,
      infix_words_iff hne hopen, infix_words_iff hne hopen, h]
  unfold commandKey keyWords
  rw [h, hsub]

/-- A command with a key has a first key word, with a program that starts with a
name and sets no variable. -/
theorem commandKey_ne_nil {c : Str} (h : commandKey rt c ≠ []) :
    ∃ token others first rest, (keyWords c).filter (fun t => !startsWith t "-") = token :: others ∧
      keyProgram token = first :: rest ∧ codePoint '=' ∉ keyProgram token ∧
      startsProgram rt first = true := by
  unfold commandKey at h
  cases htokens : (keyWords c).filter fun t => !startsWith t "-" with
  | nil =>
    rw [htokens] at h
    exact absurd rfl h
  | cons token others =>
    rw [htokens] at h
    dsimp only at h
    cases hprogram : keyProgram token with
    | nil =>
      rw [hprogram] at h
      exact absurd rfl h
    | cons first rest =>
      rw [hprogram] at h
      dsimp only at h
      refine ⟨token, others, first, rest, rfl, hprogram, ?_, ?_⟩
      · intro heq
        rw [hprogram] at heq
        rw [if_pos heq] at h
        exact h rfl
      · by_contra hstart
        rw [Bool.not_eq_true] at hstart
        split_ifs at h <;> exact h rfl

/-! ## The program of a command with a key -/

theorem mem_of_mem_pathStem {s : Str} {c : CodePoint} (h : c ∈ pathStem s) : c ∈ s := by
  have hname : c ∈ pathName s → c ∈ s := by
    unfold pathName
    intro hc
    cases hlast : ((s.splitOn (codePoint '/')).filter fun part =>
        part != [] && part != lit ".").getLast? with
    | none =>
      rw [hlast] at hc
      cases hc
    | some part =>
      rw [hlast, Option.getD_some] at hc
      have hpart := (List.mem_filter.mp (List.mem_of_getLast? hlast)).1
      exact mem_of_mem_splitOn hpart hc
  unfold pathStem at h
  dsimp only at h
  split_ifs at h
  · exact hname (List.mem_of_mem_take h)
  · exact hname h

theorem quote_not_minus : isQuote (codePoint '-') = false := by decide

theorem equals_not_stripped :
    isQuote (codePoint '=') = false ∧ isBracket (codePoint '=') = false := by decide

/-- An option is no assignment, and it is left of something when its quotes go. -/
theorem option_is_program {token : Str} (h : startsWith token "-" = true) :
    isAssignment rt token = false ∧ stripChars isQuote token ≠ [] := by
  constructor
  · unfold isAssignment
    rw [h]
    simp
  · obtain ⟨rest, rfl⟩ := List.isPrefixOf_iff_prefix.mp h
    have hmem : codePoint '-' ∈ stripChars isQuote (lit "-" ++ rest) :=
      mem_stripChars List.mem_cons_self quote_not_minus
    intro hnil
    rw [hnil] at hmem
    cases hmem

/-- A key word with a program sets no variable. -/
theorem keyProgram_is_program {token : Str} (hne : keyProgram token ≠ [])
    (hset : codePoint '=' ∉ keyProgram token) :
    isAssignment rt token = false ∧ stripChars isQuote token ≠ [] := by
  constructor
  · unfold isAssignment
    rw [Bool.and_eq_false_iff, Bool.and_eq_false_iff]
    refine Or.inl (Or.inl (decide_eq_false fun heq => hset ?_))
    exact mem_stripChars (mem_stripChars heq equals_not_stripped.1) equals_not_stripped.2
  · intro hnil
    rw [keyProgram, hnil] at hne
    exact hne rfl

/-- The name of an interpreter is left when quotes go. -/
theorem python_is_program {token : Str} (h : pathStem token ∈ pythons) :
    stripChars isQuote token ≠ [] := by
  have hp : codePoint 'p' ∈ pathStem token := by
    have hall : ∀ name ∈ pythons, codePoint 'p' ∈ name := by decide
    exact hall _ h
  have hmem : codePoint 'p' ∈ stripChars isQuote token :=
    mem_stripChars (mem_of_mem_pathStem hp) (by decide)
  intro hnil
  rw [hnil] at hmem
  cases hmem

/-- The program of a command whose first word is a program, or whose second word is
an option. -/
theorem programOf_ne_nil {c first : Str} {rest : List Str} (hwords : words c = first :: rest)
    (h : isAssignment rt first = false → stripChars isQuote first ≠ [])
    (hrest : isAssignment rt first = true → ∃ flag others, rest = flag :: others ∧
      startsWith flag "-" = true) : programOf rt c ≠ [] := by
  unfold programOf
  rw [hwords, List.find?_cons]
  cases hset : isAssignment rt first with
  | false => exact h hset
  | true =>
    obtain ⟨flag, others, rfl, hflag⟩ := hrest hset
    obtain ⟨hnot, hne⟩ := @option_is_program rt flag hflag
    rw [List.find?_cons, hnot]
    exact hne

/-- A command with a key runs a program. -/
theorem programOf_of_key {c : Str} (h : commandKey rt c ≠ []) : programOf rt c ≠ [] := by
  obtain ⟨token, others, first, rest, htokens, hprogram, hset, -⟩ := commandKey_ne_nil h
  have hne : keyProgram token ≠ [] := by
    rw [hprogram]
    exact List.cons_ne_nil _ _
  -- a first word that is kept as it is: the key word itself, or an option
  have hplain : ∀ (word : Str) (more : List Str), keyWords c = word :: more →
      isAssignment rt word = false ∧ stripChars isQuote word ≠ [] := by
    intro word more hwords
    rw [hwords, List.filter_cons] at htokens
    split_ifs at htokens with hoption
    · cases htokens
      exact keyProgram_is_program hne hset
    · exact option_is_program (by simpa using hoption)
  unfold keyWords at hplain
  split at hplain
  · rename_i program flag module more hwords
    by_cases hpython : pathStem program ∈ pythons ∧ flag = lit "-m"
    · exact programOf_ne_nil hwords (fun _ => python_is_program hpython.1)
        fun _ => ⟨flag, _, rfl, by rw [hpython.2]; decide⟩
    · rw [if_neg hpython] at hplain
      obtain ⟨hnot, hprog⟩ := hplain _ _ rfl
      exact programOf_ne_nil hwords (fun _ => hprog) fun hyes => by rw [hnot] at hyes; cases hyes
  · cases hwords : words c with
    | nil =>
      have hkey : keyWords c = [] := by rw [keyWords, hwords]
      rw [hkey] at htokens
      cases htokens
    | cons word more =>
      obtain ⟨hnot, hprog⟩ := hplain _ _ hwords
      exact programOf_ne_nil hwords (fun _ => hprog) fun hyes => by rw [hnot] at hyes; cases hyes

/-! ## Splitting again -/

/-- A text that no operator splits. -/
def Unsplit (s : Str) : Prop :=
  codePoint ';' ∉ s ∧ ¬lit "&&" <:+: s ∧ ¬lit "||" <:+: s

theorem Unsplit.within {s t : Str} (h : Unsplit t) (hs : s <:+: t) : Unsplit s :=
  ⟨fun hmem => h.1 (hs.subset hmem), fun hin => h.2.1 (hin.trans hs),
    fun hin => h.2.2 (hin.trans hs)⟩

theorem operator?_of_unsplit {s : Str} (h : Unsplit s) : operator? s = none := by
  match s with
  | [] => rfl
  | [c] =>
    rw [operator?, if_neg]
    rintro rfl
    exact h.1 List.mem_cons_self
  | c :: d :: behind =>
    rw [operator?, if_neg (by rintro rfl; exact h.1 List.mem_cons_self), if_neg]
    rintro ⟨rfl, rfl | rfl⟩
    · exact h.2.1 ⟨[], behind, rfl⟩
    · exact h.2.2 ⟨[], behind, rfl⟩

/-- An unsplit text is its own only part. -/
theorem splitOperators_of_unsplit {s : Str} (h : Unsplit s) : splitOperators s = [s] := by
  induction s with
  | nil => exact splitOperators_nil
  | cons c rest ih =>
    exact splitOperators_cons (operator?_of_unsplit h)
      (ih (h.within (List.suffix_cons c rest).isInfix))

theorem operator?_suffix {s behind : Str} (h : operator? s = some behind) : behind <:+ s := by
  match s with
  | [] => cases h
  | [c] =>
    rw [operator?] at h
    split_ifs at h
    cases h
    exact List.suffix_cons _ _
  | c :: d :: others =>
    rw [operator?] at h
    split_ifs at h
    · cases h
      exact List.suffix_cons _ _
    · cases h
      exact (List.suffix_cons _ _).trans (List.suffix_cons _ _)

theorem operator?_semicolon (rest : Str) : operator? (codePoint ';' :: rest) = some rest := by
  cases rest with
  | nil => rfl
  | cons d behind => rw [operator?, if_pos rfl]

/-- A character that starts no operator, before an unsplit start of what follows. -/
theorem unsplit_cons {c : CodePoint} {rest part : Str} (hop : operator? (c :: rest) = none)
    (hpart : Unsplit part) (hpre : part <+: rest) : Unsplit (c :: part) := by
  have hsemi : c ≠ codePoint ';' := by
    rintro rfl
    rw [operator?_semicolon] at hop
    cases hop
  have htwice : ∀ d : CodePoint, d = codePoint '&' ∨ d = codePoint '|' →
      ¬[d, d] <:+: part → ¬[d, d] <:+: c :: part := by
    intro d hd hnot hin
    rcases List.infix_cons_iff.mp hin with hstart | hin
    · obtain ⟨rfl, hnext⟩ := List.cons_prefix_cons.mp hstart
      obtain ⟨behind, rfl⟩ := hnext.trans hpre
      rw [List.singleton_append, operator?, if_neg hsemi, if_pos ⟨rfl, hd⟩] at hop
      cases hop
    · exact hnot hin
  refine ⟨?_, htwice _ (Or.inl rfl) hpart.2.1, htwice _ (Or.inr rfl) hpart.2.2⟩
  intro hmem
  rcases List.mem_cons.mp hmem with heq | hmem
  · exact hsemi heq.symm
  · exact hpart.1 hmem

/-- The parts lie within the text, and the first one starts it. -/
theorem splitOperators_parts (s : Str) : ∃ part parts, splitOperators s = part :: parts ∧
    part <+: s ∧ Unsplit part ∧ ∀ other ∈ parts, other <:+: s ∧ Unsplit other := by
  have hnil : Unsplit [] := ⟨by simp, by simp [lit], by simp [lit]⟩
  induction hn : s.length using Nat.strongRecOn generalizing s with
  | ind n ih =>
    subst hn
    cases hop : operator? s with
    | some behind =>
      obtain ⟨part, parts, hsplit, hpre, hpart, hparts⟩ :=
        ih _ (operator?_length hop) behind rfl
      have hbehind := (operator?_suffix hop).isInfix
      refine ⟨[], _, splitOperators_some hop, List.nil_prefix, hnil, ?_⟩
      intro other hother
      rw [hsplit] at hother
      rcases List.mem_cons.mp hother with rfl | hother
      · exact ⟨hpre.isInfix.trans hbehind, hpart⟩
      · exact ⟨(hparts other hother).1.trans hbehind, (hparts other hother).2⟩
    | none =>
      cases s with
      | nil => exact ⟨[], [], splitOperators_nil, List.nil_prefix, hnil, by simp⟩
      | cons c rest =>
        obtain ⟨part, parts, hsplit, hpre, hpart, hparts⟩ :=
          ih _ (Nat.lt_succ_self _) rest rfl
        refine ⟨c :: part, parts, splitOperators_cons hop hsplit,
          (List.prefix_cons_inj c).mpr hpre, unsplit_cons hop hpart hpre, ?_⟩
        intro other hother
        exact ⟨(hparts other hother).1.trans (List.suffix_cons c rest).isInfix,
          (hparts other hother).2⟩

/-- What the split of a line leaves of it. -/
structure Part (c line : Str) : Prop where
  nonempty : c ≠ []
  stripped : strip c = c
  unsplit : Unsplit c
  plain : ¬lit " #" <:+: c
  within : c <:+: line

theorem commandText_plain (line : Str) : ¬lit " #" <:+: commandText line := by
  unfold commandText
  dsimp only
  split_ifs with h
  · intro hin
    rw [strip_eq_stripChars] at hin
    exact beforeText_without (List.cons_ne_nil _ _) (hin.trans (stripChars_within _))
  · rwa [← containsText_iff]

theorem commandText_within (line : Str) : commandText line <:+: line := by
  have hstrip : strip (dropBackslashes line) <:+: line :=
    (stripChars_within _).trans (stripEnd_isStart _).isInfix
  unfold commandText
  dsimp only
  split_ifs
  · exact (stripChars_within _).trans ((beforeText_isStart _ _).isInfix.trans hstrip)
  · exact hstrip

theorem dropPrompt_suffix (line : Str) : dropPrompt line <:+ line := by
  have hmarker : ∀ s rest : Str, promptMarker s = some rest → rest <:+ s := by
    intro s rest h
    cases s with
    | nil => cases h
    | cons c others =>
      rw [promptMarker] at h
      split_ifs at h
      · cases h
        exact List.suffix_cons _ _
      · cases hd : others.dropWhile isSpace with
        | nil => rw [hd] at h; cases h
        | cons d behind =>
          rw [hd] at h
          dsimp only at h
          split_ifs at h
          cases h
          have hdrop := List.dropWhile_suffix isSpace (l := others)
          rw [hd] at hdrop
          exact (List.suffix_cons _ _).trans (hdrop.trans (List.suffix_cons _ _))
  unfold dropPrompt
  split
  · rename_i d rest h
    split_ifs
    · exact (List.dropWhile_suffix _).trans ((List.suffix_cons _ _).trans
        ((hmarker _ _ h).trans (List.dropWhile_suffix _)))
    · exact List.suffix_rfl
  · exact List.suffix_rfl

theorem splitCommandLine_part {c line : Str} (h : c ∈ splitCommandLine line) : Part c line := by
  unfold splitCommandLine at h
  dsimp only at h
  split_ifs at h
  · cases h
  · obtain ⟨hmem, hne⟩ := List.mem_filter.mp h
    obtain ⟨part, hpart, rfl⟩ := List.mem_map.mp hmem
    have hwithin : part <:+: commandText (strip (dropPrompt line)) ∧ Unsplit part := by
      obtain ⟨first, others, hsplit, hpre, hfirst, hothers⟩ :=
        splitOperators_parts (commandText (strip (dropPrompt line)))
      rw [hsplit] at hpart
      rcases List.mem_cons.mp hpart with rfl | hpart
      · exact ⟨hpre.isInfix, hfirst⟩
      · exact hothers part hpart
    have hstrip : strip part <:+: part := stripChars_within part
    refine ⟨by simpa using hne, stripChars_idem part, hwithin.2.within hstrip, fun hin => ?_, ?_⟩
    · exact commandText_plain _ (hin.trans (hstrip.trans hwithin.1))
    · exact hstrip.trans (hwithin.1.trans ((commandText_within _).trans
        ((stripChars_within _).trans (dropPrompt_suffix line).isInfix)))

/-- A text that starts with neither a prompt nor a comment. -/
theorem dropPrompt_eq_self {c : CodePoint} {rest : Str} (hspace : isSpace c = false)
    (hmarker : c = codePoint '$' ∨ c = codePoint '>' → ∀ d ∈ rest.head?, isSpace d = false)
    (hhash : c ≠ codePoint '#') : dropPrompt (c :: rest) = c :: rest := by
  unfold dropPrompt
  rw [List.dropWhile_cons_of_neg (by simp [hspace]), promptMarker]
  by_cases hc : c = codePoint '$' ∨ c = codePoint '>'
  · rw [if_pos hc]
    cases rest with
    | nil => rfl
    | cons d behind =>
      dsimp only
      rw [hmarker hc d rfl]
      rfl
  · rw [if_neg hc, if_neg hhash]

/-- The marker of a prompt is no program. -/
theorem commandKey_marker {c : Str} {d : CodePoint} {others : List Str}
    (hwords : words c = [d] :: others) (hd : d = codePoint '$' ∨ d = codePoint '>') :
    commandKey rt c = [] := by
  have hform : pathStem [d] ∉ pythons ∧ startsWith [d] "-" = false ∧ keyProgram [d] = [d] ∧
      d.val < 128 ∧ startsProgram .standard d = false := by
    rcases hd with rfl | rfl <;> decide
  obtain ⟨hstem, hoption, hprogram, hascii, hstart⟩ := hform
  by_contra hkey
  obtain ⟨token, more, first, rest, htokens, hfirst, -, hstarts⟩ := commandKey_ne_nil hkey
  have hkeys : ∃ behind, keyWords c = [d] :: behind := by
    unfold keyWords
    rw [hwords]
    split
    · rename_i program flag module behind heq
      cases heq
      rw [if_neg fun hboth => hstem hboth.1]
      exact ⟨_, rfl⟩
    · exact ⟨_, rfl⟩
  obtain ⟨behind, hkeys⟩ := hkeys
  rw [hkeys, List.filter_cons_of_pos (by simp [hoption])] at htokens
  cases htokens
  rw [hprogram] at hfirst
  cases hfirst
  rw [startsProgram, rt.isAlnum_ascii d hascii] at hstarts
  exact absurd hstarts (by rw [← Bool.not_eq_true] at hstart; exact hstart)

/-- A command with a key that was split off a line is split into itself again, unless
it reads as a comment or ends with a backslash. -/
theorem split_again {c line : Str} (h : Part c line) (hkey : commandKey rt c ≠ [])
    (hhash : startsWith c "#" = false) (hlast : ∀ d ∈ c.getLast?, d ≠ codePoint '\\') :
    splitCommandLine c = [c] := by
  obtain ⟨d, rest, hc⟩ := List.exists_cons_of_ne_nil h.nonempty
  have hspace : isSpace d = false := by
    have hstart := stripChars_head (p := isSpace) (s := c)
    rw [← strip_eq_stripChars, h.stripped, hc] at hstart
    exact hstart d rfl
  have hmarker : d = codePoint '$' ∨ d = codePoint '>' → ∀ e ∈ rest.head?, isSpace e = false := by
    intro hd e he
    rw [← Bool.not_eq_true]
    intro hsp
    obtain ⟨others, hwords⟩ := @words_cons d rest hspace
    have hnil : (rest.takeWhile fun e => !isSpace e) = [] := by
      cases rest with
      | nil => rfl
      | cons f behind =>
        obtain rfl : f = e := by simpa using he
        exact List.takeWhile_cons_of_neg (by simp [hsp])
    rw [hnil, ← hc] at hwords
    exact hkey (commandKey_marker hwords hd)
  have hnothash : d ≠ codePoint '#' := by
    rintro rfl
    rw [hc] at hhash
    cases hhash
  have hprompt : strip (dropPrompt c) = c := by
    rw [hc, dropPrompt_eq_self hspace hmarker hnothash, ← hc, h.stripped]
  have hback : dropBackslashes c = c :=
    stripEnd_eq_self fun e he => beq_eq_false_iff_ne.mpr (hlast e he)
  have htext : commandText c = c := by
    unfold commandText
    rw [hback, h.stripped]
    dsimp only
    rw [if_neg (by rw [containsText_iff]; exact h.plain)]
  unfold splitCommandLine
  dsimp only
  rw [hprompt, if_neg (by simp [h.nonempty, hhash]), htext, splitOperators_of_unsplit h.unsplit,
    List.map_singleton, h.stripped]
  simp [h.nonempty]

end DevRepro.Agents
