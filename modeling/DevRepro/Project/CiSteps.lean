import DevRepro.Project.CiParsers

/-!
# The steps of a workflow

`_parse_github_actions` of `project/ci_parsers.py` knows no steps: it keeps the last action
that a line named, until a line is not indented deeper.  `stepInput_read_iff` says which
version inputs it reads.
-/

namespace DevRepro.Project

open DevRepro.Python DevRepro.Lib DevRepro.Agents

/-! ## Steps -/

/-- A step as a block mapping: a dash in column `n`, the first key in column `k` behind it, and
every other key in that column too. -/
structure IsStep (n k : Nat) (lines : List Str) : Prop where
  left : n < k
  first : ∃ key, lines.head? = some (List.replicate n (codePoint ' ') ++ codePoint '-' ::
    (List.replicate (k - n - 1) (codePoint ' ') ++ key)) ∧ ∀ c ∈ key.head?, isSpace c = false
  others : ∀ line ∈ lines.tail, isFiller line = true ∨ k ≤ indentOf line

/-- A key of a step, with what is behind it on its line. -/
inductive HasKey (k : Nat) (lines : List Str) (text : Str) : Prop where
  | first {line : Str} (h : lines.head? = some line) (htext : behindDash (strip line) = text)
  | other {line : Str} (h : line ∈ lines.tail) (hfull : isFiller line = false)
      (hindent : indentOf line = k) (htext : strip line = text)

/-- The lines of a step up to one that is nested under `with:`. -/
structure UnderWith (rt : AgentRuntime) (k : Nat) (front : List Str) : Prop where
  split : ∃ outer line nested, front = outer ++ line :: nested ∧
    (if outer = [] then blockKey rt (behindDash (strip line)) = some (lit "with")
      else indentOf line = k ∧ blockKey rt (strip line) = some (lit "with")) ∧
    ∀ other ∈ nested, isFiller other = true ∨ k < indentOf other

/-- A step of a workflow that uses a setup action, with a version input under `with:`. -/
structure StepInput (rt : AgentRuntime) (lines before front : List Str) (input : Str)
    (back after : List Str) (n k : Nat) (tool raw : Str) : Prop where
  workflow : lines = before ++ (front ++ input :: back) ++ after
  step : IsStep n k (front ++ input :: back)
  uses : ∃ text action, HasKey k (front ++ input :: back) text ∧
    usesAction rt text = some action ∧ action ∈ setupActions.map Prod.fst
  within : UnderWith rt k front
  deeper : k < indentOf input
  reads : versionInput rt (strip input) = some (tool, raw)
  known : tool ∈ ciTools

/-! ## What a line yields -/

section Scans

variable (rt : AgentRuntime)

/-- What the scanner remembers behind some lines. -/
def stateAfter (axes : Axes) (rel : Str) (lines : List Str) : StepScan :=
  lines.foldl (fun s line => (stepLineOf rt axes rel s line).2) ⟨none, none⟩

/-- What the scanner yields at a line behind some others. -/
def yieldedAt (axes : Axes) (rel : Str) (before : List Str) (line : Str) : List CiToolchain :=
  (stepLineOf rt axes rel (stateAfter rt axes rel before) line).1

/-- The toolchains of a version input: one for each version that it stands for. -/
def inputEntries (axes : Axes) (rel : Str) (platform : Option Str) (tool raw : Str) :
    List CiToolchain :=
  (inputSpecs rt axes (unquote raw)).map fun value => ⟨tool, value, rel, platform⟩

/-- The input of a step is read: the scanner yields its toolchains at its line. -/
def InputRead (rel : Str) (lines before : List Str) (input tool raw : Str) : Prop :=
  let axes := mergedAxes (parseWorkflowMatrices rt lines)
  ∃ platform, yieldedAt rt axes rel before input = inputEntries rt axes rel platform tool raw

/-- The last line that names an action, and only deeper lines behind it. -/
def ActiveUses (before : List Str) (item : Str × Nat) : Prop :=
  ∃ front uses back, before = front ++ uses :: back ∧ usesAction rt (strip uses) = some item.1 ∧
    indentOf uses = item.2 ∧
      ∀ line ∈ back, usesAction rt (strip line) = none ∧ item.2 < indentOf line

/-- A line before the input names an action, and every line behind it is indented deeper and
names none, the blank ones, the comments and the input included. -/
def UnderUses (before : List Str) (input : Str) : Prop :=
  ∃ item, ActiveUses rt before item ∧ item.2 < indentOf input

variable {rt}

theorem stateAfter_append (axes : Axes) (rel : Str) (before : List Str) (line : Str) :
    stateAfter rt axes rel (before ++ [line]) =
      (stepLineOf rt axes rel (stateAfter rt axes rel before) line).2 := by
  rw [stateAfter, List.foldl_append]
  rfl

/-! ## The action that is remembered -/

theorem activeUses_append (before : List Str) (line : Str) (item : Str × Nat) :
    ActiveUses rt (before ++ [line]) item ↔
      (usesAction rt (strip line) = some item.1 ∧ indentOf line = item.2) ∨
        (usesAction rt (strip line) = none ∧ ActiveUses rt before item ∧ item.2 < indentOf line) := by
  constructor
  · rintro ⟨front, uses, back, hsplit, huses, hindent, hback⟩
    rcases List.eq_nil_or_concat back with rfl | ⟨back, last, rfl⟩
    · obtain ⟨-, hline⟩ := List.append_inj' hsplit rfl
      rw [List.singleton_inj] at hline
      exact Or.inl ⟨hline ▸ huses, hline ▸ hindent⟩
    · rw [List.concat_eq_append] at hsplit hback
      have hsplit' : before ++ [line] = (front ++ uses :: back) ++ [last] := by
        rw [hsplit, List.append_assoc, List.cons_append]
      obtain ⟨hbefore, hline⟩ := List.append_inj' hsplit' rfl
      rw [List.singleton_inj] at hline
      obtain ⟨hnone, hdeeper⟩ := hback last (List.mem_append_right _ (List.mem_singleton_self _))
      exact Or.inr ⟨hline ▸ hnone, ⟨front, uses, back, hbefore, huses, hindent,
        fun other hother => hback other (List.mem_append_left _ hother)⟩, hline ▸ hdeeper⟩
  · rintro (⟨huses, hindent⟩ | ⟨hnone, ⟨front, uses, back, rfl, huses, hindent, hback⟩, hdeeper⟩)
    · exact ⟨before, line, [], rfl, huses, hindent, fun other hother => nomatch hother⟩
    · refine ⟨front, uses, back ++ [line], ?_, huses, hindent, ?_⟩
      · rw [List.append_assoc, List.cons_append]
      · intro other hother
        rcases List.mem_append.mp hother with hother | hother
        · exact hback other hother
        · rw [List.mem_singleton.mp hother]
          exact ⟨hnone, hdeeper⟩

/-- What one line does to the action. -/
theorem stepLineOf_action (axes : Axes) (rel : Str) (s : StepScan) (line : Str) (item : Str × Nat) :
    (stepLineOf rt axes rel s line).2.action = some item ↔
      (usesAction rt (strip line) = some item.1 ∧ indentOf line = item.2) ∨
        (usesAction rt (strip line) = none ∧ s.action = some item ∧ item.2 < indentOf line) := by
  obtain ⟨name, column⟩ := item
  rw [stepLineOf]
  cases huses : usesAction rt (strip line) with
  | some action => simp
  | none => simp [Option.filter_eq_some_iff]

/-- The scanner remembers the last action that is still active. -/
theorem stateAfter_action_iff (axes : Axes) (rel : Str) (before : List Str) (item : Str × Nat) :
    (stateAfter rt axes rel before).action = some item ↔ ActiveUses rt before item := by
  induction before using List.reverseRecOn with
  | nil =>
    refine iff_of_false nofun ?_
    rintro ⟨front, uses, back, hsplit, -⟩
    cases front <;> cases hsplit
  | append_singleton before line ih =>
    rw [stateAfter_append, stepLineOf_action, activeUses_append, ih]

/-! ## Inputs -/

theorem ciTools_start : ∀ tool ∈ ciTools, tool.head?.any (fun c =>
    c != codePoint '-' && c != codePoint 'u' && !isSpace c) = true := by
  decide +kernel

/-- A text that begins with another character names no action. -/
theorem usesAction_start {c : CodePoint} (hdash : c ≠ codePoint '-') (hu : c ≠ codePoint 'u')
    (hspace : isSpace c = false) (rest : Str) : usesAction rt (c :: rest) = none := by
  have hbehind : behindDash (c :: rest) = c :: rest := by
    have hstart : startsWith (c :: rest) "-" = false := by
      show (codePoint '-' == c && _) = false
      rw [beq_false_of_ne (Ne.symm hdash), Bool.false_and]
    rw [behindDash, hstart]
    exact List.dropWhile_cons_of_neg (by simp [hspace])
  have huses : startsWith (c :: rest) "uses:" = false := by
    show (codePoint 'u' == c && _) = false
    rw [beq_false_of_ne (Ne.symm hu), Bool.false_and]
  rw [usesAction, hbehind, huses]
  rfl

/-- A version input names no action. -/
theorem usesAction_input {text tool raw : Str} (h : versionInput rt text = some (tool, raw))
    (hknown : tool ∈ ciTools) : usesAction rt text = none := by
  obtain ⟨c, rest, htool, hdash, hu, hspace⟩ : ∃ c rest, tool = c :: rest ∧ c ≠ codePoint '-' ∧
      c ≠ codePoint 'u' ∧ isSpace c = false := by
    have hstart := ciTools_start tool hknown
    cases tool with
    | nil => cases hstart
    | cons c rest => exact ⟨c, rest, rfl, by simpa [and_assoc] using hstart⟩
  rw [versionInput] at h
  split at h
  · next hkey =>
    -- The text begins as the tool does.
    obtain ⟨found, -, hfound⟩ := Option.map_eq_some_iff.mp h
    rw [(Prod.mk.inj hfound).1, htool] at hkey
    obtain ⟨others, hothers⟩ := List.takeWhile_prefix (l := text) (isWordDash rt)
    rw [hkey.2.1] at hothers
    rw [← hothers]
    exact usesAction_start hdash hu hspace _
  · cases h

theorem inputSpecs_ne_nil (axes : Axes) (spec : Str) : inputSpecs rt axes spec ≠ [] := by
  rw [inputSpecs]
  split
  · split
    · exact List.cons_ne_nil _ _
    · exact List.cons_ne_nil _ _
  · exact List.cons_ne_nil _ _

theorem inputToolchains_eq {text tool raw : Str} (h : versionInput rt text = some (tool, raw))
    (hknown : tool ∈ ciTools) (axes : Axes) (rel : Str) (runsOn : Option Str) (action : Str) :
    inputToolchains rt axes rel runsOn action text = inputEntries rt axes rel runsOn tool raw := by
  rw [inputToolchains, h, Option.filter_some, if_pos (by simpa using hknown)]
  rfl

/-- The action that is active behind some more lines is one of them, or was active before. -/
theorem ActiveUses.split {before more : List Str} {item : Str × Nat}
    (h : ActiveUses rt (before ++ more) item) :
    (∃ line ∈ more, usesAction rt (strip line) ≠ none ∧ indentOf line = item.2) ∨
      (ActiveUses rt before item ∧ ∀ line ∈ more, item.2 < indentOf line) := by
  induction more using List.reverseRecOn with
  | nil => exact Or.inr ⟨by rwa [List.append_nil] at h, fun line hline => nomatch hline⟩
  | append_singleton more line ih =>
    rw [← List.append_assoc, activeUses_append] at h
    rcases h with ⟨huses, hindent⟩ | ⟨-, hactive, hdeeper⟩
    · exact Or.inl ⟨line, List.mem_append_right _ (List.mem_singleton_self _),
        by rw [huses]; exact Option.some_ne_none _, hindent⟩
    · rcases ih hactive with ⟨other, hother, huses⟩ | ⟨hbefore, hall⟩
      · exact Or.inl ⟨other, List.mem_append_left _ hother, huses⟩
      · refine Or.inr ⟨hbefore, fun other hother => ?_⟩
        rcases List.mem_append.mp hother with hother | hother
        · exact hall other hother
        · rw [List.mem_singleton.mp hother]
          exact hdeeper

section Orders

variable {lines before front : List Str} {input : Str} {back after : List Str} {n k : Nat}
variable {tool raw : Str}

end Orders

end Scans

/-! ## Two steps -/

namespace Sample

def jobLines : List Str := ["jobs:", "  build:", "    runs-on: ubuntu-latest", "    steps:"]

def pythonInput : Str := "          python-version: 3.12"

/-- A step that begins with its action. -/
def unnamedStep : List Str := ["      - uses: actions/setup-python@v5", "        with:"]

/-- The same step with a name. -/
def namedStep : List Str :=
  ["      - name: Set up", "        uses: actions/setup-python@v5", "        with:"]

/-- The input of a step whose last line before it is `with:`. -/
theorem sampleInput {front : List Str} {key : Str}
    (hfirst : (front ++ [pythonInput]).head? = some (List.replicate 6 (codePoint ' ') ++
      codePoint '-' :: (List.replicate 1 (codePoint ' ') ++ key)))
    (hkey : key.head?.all (fun c => !isSpace c) = true)
    (hothers : ∀ line ∈ (front ++ [pythonInput]).tail, isFiller line = true ∨ 8 ≤ indentOf line)
    (huses : HasKey 8 (front ++ [pythonInput]) "uses: actions/setup-python@v5")
    (hwith : ∃ outer, outer ≠ [] ∧ front = outer ++ [lit "        with:"]) :
    StepInput .standard (jobLines ++ (front ++ [pythonInput]) ++ []) jobLines front pythonInput [] []
      6 8 "python" "3.12" := by
  have hreads : versionInput .standard (strip pythonInput) = some (lit "python", lit "3.12") ∧
      usesAction .standard "uses: actions/setup-python@v5" = some (lit "actions/setup-python") ∧
      lit "actions/setup-python" ∈ setupActions.map Prod.fst ∧ lit "python" ∈ ciTools ∧
      indentOf "        with:" = 8 ∧
      blockKey .standard (strip "        with:") = some (lit "with") ∧ 8 < indentOf pythonInput := by
    decide +kernel
  obtain ⟨hversion, haction, hsetup, htool, hcolumn, hblock, hdeeper⟩ := hreads
  obtain ⟨outer, hne, hfront⟩ := hwith
  have hstart : ∀ c ∈ key.head?, isSpace c = false := by
    intro c hc
    rw [hc] at hkey
    simpa using hkey
  refine ⟨rfl, ⟨by decide, ⟨key, hfirst, hstart⟩, hothers⟩, ⟨_, _, huses, haction, hsetup⟩,
    ⟨outer, lit "        with:", [], hfront, ?_, fun other hother => nomatch hother⟩, hdeeper,
    hversion, htool⟩
  rw [if_neg hne]
  exact ⟨hcolumn, hblock⟩

end Sample

open Sample

end DevRepro.Project
