import DevRepro.Agents.Manifest
import DevRepro.Lib.Firsts

/-!
# The gates that a manifest leaves out

`manifest_vs_ci` compares commands by `_command_key`, which gives script fragments no key.
`gateOf` is what a command runs, with the assignments before the program left out as
`_program_of` leaves them out.  `gatesCompared_iff` says when every gate of the workflows
is compared: a command with such assignments has no key.
-/

namespace DevRepro.Agents

open DevRepro.Python DevRepro.Lib

/-! ## What a command runs -/

section Definitions

variable (rt : AgentRuntime)

/-- The words of a command behind the assignments at its start. -/
def properWords (command : Str) : List Str := (words command).dropWhile (isAssignment rt)

/-- The words without a leading `python -m`. -/
def moduleWords : List Str → List Str
  | program :: flag :: module :: rest =>
    if pathStem program ∈ pythons ∧ flag = lit "-m" then module :: rest
    else program :: flag :: module :: rest
  | raw => raw

/-- The program of a command and its first argument that is no option. -/
def runs (command : Str) : Option (Str × Option Str) :=
  match moduleWords (properWords rt command) with
  | [] => none
  | token :: rest => some (keyProgram token, (rest.filter fun t => !startsWith t "-").head?)

/-- The name of a program, not a shell operator, that is neither a keyword nor a builtin nor
plumbing. -/
def isGateProgram (program : Str) : Bool :=
  program.head?.any (startsProgram rt) &&
    decide (program ∉ shellBuiltins ∧ program ∉ shellKeywords ∧ program ∉ plumbing)

/-- What a command runs, if that may be a gate. -/
def gateOf (command : Str) : Option (Str × Option Str) :=
  (runs rt command).filter fun gate => isGateProgram rt gate.1

/-- The key of a gate. -/
def keyText (gate : Str × Option Str) : Str := join " " (gate.1 :: gate.2.toList)

/-- A command that `_command_key` takes for no fragment: nothing is assigned before the
program, the program has no `=`, and a substitution stands behind the name of a program
only. -/
structure Readable (command : Str) (gate : Str × Option Str) : Prop where
  unassigned : properWords rt command = words command
  noEquals : codePoint '=' ∉ gate.1
  substitution : containsText command "$(" = true → gate.1.head?.any rt.isAlnum = true

variable (declared : List DeclaredCommand) (ci : List Str)

/-- Every gate of the workflows is reported unless a declared command runs it, and no two
reported commands have the same identity. -/
structure GatesCompared : Prop where
  reported : ∀ c ∈ ci, ∀ gate, gateOf rt c = some gate →
    ((∃ r ∈ manifestVsCi rt declared ci, commandKey rt r = commandKey rt c) ↔
      ∀ d ∈ declared, gateOf rt d.raw ≠ some gate)
  distinct : ((manifestVsCi rt declared ci).map (commandKey rt)).Nodup

/-- The keys follow what the commands run. -/
structure KeysFollow : Prop where
  missing : ∀ c ∈ ci, ∀ gate, gateOf rt c = some gate →
    (∀ d ∈ declared, gateOf rt d.raw ≠ some gate) →
      Readable rt c gate ∧ ∀ d ∈ declared, commandKey rt d.raw ≠ keyText gate
  declared : ∀ c ∈ ci, ∀ gate, gateOf rt c = some gate → Readable rt c gate →
    (∃ d ∈ declared, gateOf rt d.raw = some gate) →
      ∃ d ∈ declared, commandKey rt d.raw = keyText gate

end Definitions

variable {rt : AgentRuntime} {declared : List DeclaredCommand} {ci : List Str}

/-! ## What is reported -/

/-- The loop of `manifest_vs_ci` keeps the first command of each key that is not declared. -/
theorem manifestVsCi_eq_firsts :
    manifestVsCi rt declared ci = firsts (commandKey rt) (ci.filter fun c =>
      decide (commandKey rt c ≠ [] ∧ commandKey rt c ∉ declared.map fun d => commandKey rt d.raw)) := by
  have hfold : ∀ (keys missing : List Str), ci.foldl (missingStep rt keys) missing =
      missing ++ firstsFrom (commandKey rt) (missing.map (commandKey rt))
        (ci.filter fun c => decide (commandKey rt c ≠ [] ∧ commandKey rt c ∉ keys)) := by
    intro keys
    induction ci with
    | nil => simp [firstsFrom]
    | cons command rest ih =>
      intro missing
      rw [List.foldl_cons, ih, missingStep, List.filter_cons]
      by_cases hkey : commandKey rt command = [] ∨ commandKey rt command ∈ keys
      · have hdrop : ¬(commandKey rt command ≠ [] ∧ commandKey rt command ∉ keys) := by tauto
        rw [if_pos hkey, if_neg (by simpa using hdrop)]
      · have hkeep : commandKey rt command ≠ [] ∧ commandKey rt command ∉ keys := by tauto
        rw [if_neg hkey, if_pos (decide_eq_true hkeep), firstsFrom]
        by_cases hseen : commandKey rt command ∈ missing.map (commandKey rt)
        · rw [if_pos hseen, if_pos hseen]
        · rw [if_neg hseen, if_neg hseen, List.append_assoc]
          congr 1
          rw [List.singleton_append, List.cons.injEq, and_iff_right rfl]
          refine firstsFrom_congr (fun k => ?_) _
          rw [List.map_append, List.mem_append, List.map_singleton, List.mem_singleton, List.mem_cons]
          exact or_comm
  rw [manifestVsCi, hfold, List.nil_append]
  rfl

/-- A key is reported when it is one of the workflows and not one of the manifests. -/
theorem mem_reported_keys {k : Str} :
    (∃ r ∈ manifestVsCi rt declared ci, commandKey rt r = k) ↔
      (∃ c ∈ ci, commandKey rt c = k) ∧ k ≠ [] ∧ ∀ d ∈ declared, commandKey rt d.raw ≠ k := by
  rw [← List.mem_map, manifestVsCi_eq_firsts, keys_firsts, List.mem_map]
  simp only [List.mem_filter, decide_eq_true_eq, List.mem_map, not_exists, not_and]
  constructor
  · rintro ⟨c, ⟨hc, hne, hnot⟩, rfl⟩
    exact ⟨⟨c, hc, rfl⟩, hne, hnot⟩
  · rintro ⟨⟨c, hc, rfl⟩, hne, hnot⟩
    exact ⟨c, ⟨hc, hne, hnot⟩, rfl⟩

theorem reported_distinct : ((manifestVsCi rt declared ci).map (commandKey rt)).Nodup := by
  rw [manifestVsCi_eq_firsts]
  exact nodup_firsts _

/-! ## The key of a gate -/

theorem keyWords_eq (c : Str) : keyWords c = moduleWords (words c) := by
  unfold keyWords moduleWords
  rfl

theorem gateOf_eq_some {c : Str} {gate : Str × Option Str} :
    gateOf rt c = some gate ↔ runs rt c = some gate ∧ isGateProgram rt gate.1 = true := by
  rw [gateOf, Option.filter_eq_some_iff]

/-- The program of a gate starts like the name of a program. -/
theorem isGateProgram_cons {program : Str} (h : isGateProgram rt program = true) :
    ∃ first rest, program = first :: rest ∧ startsProgram rt first = true ∧
      program ∉ shellBuiltins ∧ program ∉ shellKeywords ∧ program ∉ plumbing := by
  rw [isGateProgram, Bool.and_eq_true, decide_eq_true_iff] at h
  cases program with
  | nil => cases h.1
  | cons first rest => exact ⟨first, rest, rfl, h.1, h.2⟩

theorem minus_starts_no_program : startsProgram rt (codePoint '-') = false := by
  rw [startsProgram, rt.isAlnum_ascii _ (by decide)]
  decide

/-- A character at the start stays when it is not stripped. -/
theorem stripChars_cons_kept {p : CodePoint → Bool} {c : CodePoint} (hc : p c = false) (rest : Str) :
    ∃ behind, stripChars p (c :: rest) = c :: behind := by
  have hmem := mem_stripChars (p := p) (List.mem_cons_self (a := c) (l := rest)) hc
  have hstart : stripChars p (c :: rest) <+: c :: rest := by
    rw [stripChars_eq, List.dropWhile_cons_of_neg (by simp [hc])]
    exact stripEnd_isStart _
  cases hs : stripChars p (c :: rest) with
  | nil =>
    rw [hs] at hmem
    cases hmem
  | cons d behind =>
    rw [hs] at hstart
    exact ⟨behind, by rw [(List.cons_prefix_cons.mp hstart).1]⟩

/-- An option is no program. -/
theorem option_no_program {token : Str} (h : startsWith token "-" = true) :
    isGateProgram rt (keyProgram token) = false := by
  obtain ⟨rest, rfl⟩ := List.isPrefixOf_iff_prefix.mp h
  rw [← Bool.not_eq_true]
  intro hprogram
  obtain ⟨first, others, heq, hstarts, -⟩ := isGateProgram_cons hprogram
  obtain ⟨behind, hquote⟩ := @stripChars_cons_kept isQuote (codePoint '-') (by decide) rest
  obtain ⟨last, hbracket⟩ := @stripChars_cons_kept isBracket (codePoint '-') (by decide) behind
  have hprog : keyProgram (lit "-" ++ rest) = codePoint '-' :: last := by
    have hlit : lit "-" ++ rest = codePoint '-' :: rest := rfl
    rw [keyProgram, hlit, hquote, hbracket]
  rw [hprog] at heq
  obtain ⟨rfl, -⟩ := List.cons.inj heq
  rw [minus_starts_no_program] at hstarts
  cases hstarts

theorem mem_moduleWords {w : Str} {ws : List Str} (h : w ∈ moduleWords ws) : w ∈ ws := by
  unfold moduleWords at h
  split at h
  · split_ifs at h
    · exact List.mem_cons_of_mem _ (List.mem_cons_of_mem _ h)
    · exact h
  · exact h

/-- An assignment before a program is no `python`: the words of the key are those of the
command. -/
theorem keyWords_assigned {c token : Str} {rest : List Str} {gate : Str × Option Str}
    (hgate : gateOf rt c = some gate) (hwords : words c = token :: rest)
    (hassign : isAssignment rt token = true) : keyWords c = token :: rest := by
  obtain ⟨hruns, hprogram⟩ := gateOf_eq_some.mp hgate
  rw [keyWords_eq, hwords]
  rcases rest with _ | ⟨flag, _ | ⟨module, more⟩⟩
  · rfl
  · rfl
  · rw [moduleWords, if_neg]
    rintro ⟨-, rfl⟩
    -- An option in second place would be what the command runs.
    have hproper : properWords rt c = lit "-m" :: module :: more := by
      rw [properWords, hwords, List.dropWhile_cons_of_pos hassign, List.dropWhile_cons_of_neg]
      rw [(@option_is_program rt (lit "-m") (by decide)).1]
      exact Bool.false_ne_true
    have hstem : pathStem (lit "-m") ∉ pythons := by decide
    have hkept : ∃ behind, moduleWords (lit "-m" :: module :: more) = lit "-m" :: behind := by
      cases more with
      | nil => exact ⟨_, rfl⟩
      | cons next more =>
        rw [moduleWords, if_neg fun hboth => hstem hboth.1]
        exact ⟨_, rfl⟩
    obtain ⟨last, hlast⟩ := hkept
    rw [runs, hproper, hlast] at hruns
    obtain rfl := Option.some.inj hruns
    rw [option_no_program (by decide)] at hprogram
    cases hprogram

/-- A command that starts with an assignment has no key, or runs no program. -/
theorem commandKey_assigned {c : Str} {gate : Str × Option Str} (hgate : gateOf rt c = some gate)
    (hset : properWords rt c ≠ words c) : commandKey rt c = [] := by
  cases hwords : words c with
  | nil =>
    rw [properWords, hwords] at hset
    exact absurd rfl hset
  | cons token rest =>
    have hassign : isAssignment rt token = true := by
      by_contra hnot
      rw [properWords, hwords, List.dropWhile_cons_of_neg hnot] at hset
      exact hset rfl
    have hdash : startsWith token "-" = false := by
      rw [← Bool.not_eq_true]
      intro hoption
      rw [(@option_is_program rt token hoption).1] at hassign
      cases hassign
    have hmem : codePoint '=' ∈ token := by
      unfold isAssignment at hassign
      rw [Bool.and_eq_true, Bool.and_eq_true, decide_eq_true_iff] at hassign
      exact hassign.1.1
    by_contra hkey
    obtain ⟨word, others, first, behind, htokens, hfirst, hequals, -⟩ := commandKey_ne_nil hkey
    rw [keyWords_assigned hgate hwords hassign, List.filter_cons_of_pos (by simp [hdash])] at htokens
    obtain ⟨rfl, -⟩ := List.cons.inj htokens
    exact hequals (mem_stripChars (mem_stripChars hmem equals_not_stripped.1) equals_not_stripped.2)

/-- The key of a command that nothing is assigned in. -/
theorem commandKey_unassigned {c : Str} {gate : Str × Option Str} (hgate : gateOf rt c = some gate)
    (hset : properWords rt c = words c) :
    commandKey rt c =
      if codePoint '=' ∈ gate.1 then []
      else if containsText c "$(" ∧ gate.1.head?.any rt.isAlnum = false then [] else keyText gate := by
  obtain ⟨hruns, hprogram⟩ := gateOf_eq_some.mp hgate
  rw [runs, hset, ← keyWords_eq] at hruns
  cases htokens : keyWords c with
  | nil =>
    rw [htokens] at hruns
    cases hruns
  | cons token rest =>
    rw [htokens] at hruns
    obtain rfl := Option.some.inj hruns
    have hdash : startsWith token "-" = false := by
      rw [← Bool.not_eq_true]
      intro hoption
      rw [option_no_program hoption] at hprogram
      cases hprogram
    obtain ⟨first, behind, hfirst, hstarts, hbuiltin, hkeyword, hplumbing⟩ :=
      isGateProgram_cons hprogram
    rw [commandKey, htokens, List.filter_cons_of_pos (by simp [hdash])]
    dsimp only at hfirst hbuiltin hkeyword hplumbing ⊢
    rw [hfirst] at hbuiltin hkeyword hplumbing ⊢
    dsimp only
    have hname : ¬startsProgram rt first = false := by
      rw [hstarts]
      exact Bool.noConfusion
    have hnone : ¬(first :: behind ∈ shellBuiltins ∨ first :: behind ∈ shellKeywords ∨
        first :: behind ∈ plumbing) := by tauto
    rw [if_neg hname, if_neg hnone, List.head?_cons, Option.any_some]
    cases rest.filter fun t => !startsWith t "-" with
    | nil => rfl
    | cons argument others => simp [keyText, join]

/-- The key of a gate tells what it runs, or there is none. -/
theorem commandKey_of_gate {c : Str} {gate : Str × Option Str} (hgate : gateOf rt c = some gate) :
    (Readable rt c gate → commandKey rt c = keyText gate) ∧
      (¬Readable rt c gate → commandKey rt c = []) := by
  constructor
  · intro h
    rw [commandKey_unassigned hgate h.unassigned, if_neg h.noEquals, if_neg]
    rintro ⟨hopen, hnot⟩
    rw [h.substitution hopen] at hnot
    cases hnot
  · intro h
    by_cases hset : properWords rt c = words c
    · rw [commandKey_unassigned hgate hset]
      by_cases hequals : codePoint '=' ∈ gate.1
      · rw [if_pos hequals]
      · rw [if_neg hequals, if_pos]
        by_contra hboth
        refine h ⟨hset, hequals, fun hopen => ?_⟩
        by_contra hnot
        exact hboth ⟨hopen, Bool.not_eq_true _ ▸ hnot⟩
    · exact commandKey_assigned hgate hset

theorem keyText_ne_nil {c : Str} {gate : Str × Option Str} (hgate : gateOf rt c = some gate) :
    keyText gate ≠ [] := by
  obtain ⟨first, rest, heq, -⟩ := isGateProgram_cons (gateOf_eq_some.mp hgate).2
  rw [keyText, heq]
  cases gate.2 with
  | none => exact List.cons_ne_nil _ _
  | some argument => exact List.cons_ne_nil _ _

/-! ## Every gate -/

variable (rt declared ci) in
/-- The gates of the workflows are compared exactly when the keys follow what the commands
run. -/
theorem gatesCompared_iff : GatesCompared rt declared ci ↔ KeysFollow rt declared ci := by
  -- a command with a key is reported when nothing declared has that key
  have hreport : ∀ c ∈ ci, ∀ gate, gateOf rt c = some gate → Readable rt c gate →
      ((∃ r ∈ manifestVsCi rt declared ci, commandKey rt r = commandKey rt c) ↔
        ∀ d ∈ declared, commandKey rt d.raw ≠ keyText gate) := by
    intro c hc gate hgate hread
    rw [mem_reported_keys, (commandKey_of_gate hgate).1 hread]
    exact ⟨fun h => h.2.2, fun h =>
      ⟨⟨c, hc, (commandKey_of_gate hgate).1 hread⟩, keyText_ne_nil hgate, h⟩⟩
  have hsilent : ∀ c gate, gateOf rt c = some gate → ¬Readable rt c gate →
      ¬∃ r ∈ manifestVsCi rt declared ci, commandKey rt r = commandKey rt c := by
    intro c gate hgate hread h
    rw [mem_reported_keys] at h
    exact h.2.1 ((commandKey_of_gate hgate).2 hread)
  constructor
  · intro h
    constructor
    · intro c hc gate hgate hmissing
      have hreported := (h.reported c hc gate hgate).mpr hmissing
      by_cases hread : Readable rt c gate
      · exact ⟨hread, (hreport c hc gate hgate hread).mp hreported⟩
      · exact absurd hreported (hsilent c gate hgate hread)
    · rintro c hc gate hgate hread ⟨d, hd, hsame⟩
      by_contra hnone
      have hreported := (hreport c hc gate hgate hread).mpr
        fun e he heq => hnone ⟨e, he, heq⟩
      exact (h.reported c hc gate hgate).mp hreported d hd hsame
  · intro h
    refine ⟨fun c hc gate hgate => ?_, reported_distinct⟩
    constructor
    · intro hreported d hd hsame
      by_cases hread : Readable rt c gate
      · obtain ⟨e, he, heq⟩ := h.declared c hc gate hgate hread ⟨d, hd, hsame⟩
        exact (hreport c hc gate hgate hread).mp hreported e he heq
      · exact hsilent c gate hgate hread hreported
    · intro hmissing
      obtain ⟨hread, hnone⟩ := h.missing c hc gate hgate hmissing
      exact (hreport c hc gate hgate hread).mpr hnone

/-- `CI=1 pytest` is not compared with a manifest that declares nothing. -/
theorem assigned_gate_unseen :
    gateOf .standard "CI=1 pytest" = some (lit "pytest", none) ∧
      manifestVsCi .standard [] [lit "CI=1 pytest"] = [] ∧
      ¬GatesCompared .standard [] [lit "CI=1 pytest"] := by
  have hgate : gateOf .standard "CI=1 pytest" = some (lit "pytest", none) := by decide +kernel
  have hnone : manifestVsCi .standard [] [lit "CI=1 pytest"] = [] := by decide +kernel
  refine ⟨hgate, hnone, fun h => ?_⟩
  have hreported := (h.reported _ (List.mem_singleton_self _) _ hgate).mpr fun d hd => nomatch hd
  rw [hnone] at hreported
  obtain ⟨r, hr, -⟩ := hreported
  cases hr

end DevRepro.Agents
