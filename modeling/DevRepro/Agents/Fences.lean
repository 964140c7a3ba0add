import DevRepro.Agents.Manifest

/-!
# Paired fences

A document whose fences pair up is a list of parts: lines of prose, and blocks
between an opening fence and a closing one.

`parse_declared_commands` keeps one flag, and a closing fence without a language
looks like the opening fence of a shell block to it.  After the first block of
another language it therefore takes the prose for commands and the commands for
prose: `accurate_iff` says which documents that leaves alone.
-/

namespace DevRepro.Agents

open DevRepro.Python

/-! ## Documents -/

/-- A block between two fences. -/
structure FencedBlock where
  opening : Str
  language : Str
  content : List Str
  closing : Str
  opens : fenceLanguage opening = some language
  inside : ∀ line ∈ content, fenceLanguage line = none
  closes : fenceLanguage closing = some []

inductive DocPart where
  | prose (line : Str) (plain : fenceLanguage line = none)
  | block (b : FencedBlock)

/-- The lines of a part. -/
def DocPart.lines : DocPart → List Str
  | .prose line _ => [line]
  | .block b => b.opening :: (b.content ++ [b.closing])

/-- A text in which the fences pair up. -/
structure PairedText where
  text : Str
  parts : List DocPart
  lines : splitlines text = parts.flatMap DocPart.lines

variable (rt : AgentRuntime) (manifest : Str)

/-- The commands of lines that are numbered from some number on. -/
def numberedCommands : Nat → List Str → List DeclaredCommand
  | _, [] => []
  | lineno, line :: rest =>
    lineCommands rt manifest lineno "." (splitCommandLine line) ++ numberedCommands (lineno + 1) rest

/-- The commands in the shell blocks of a document, with their line numbers. -/
def blockCommands : Nat → List DocPart → List DeclaredCommand
  | _, [] => []
  | lineno, .prose _ _ :: rest => blockCommands (lineno + 1) rest
  | lineno, .block b :: rest =>
    (if isShellFence rt b.language then numberedCommands rt manifest (lineno + 1) b.content else []) ++
      blockCommands (lineno + b.content.length + 2) rest

/-- The commands outside the blocks of a document. -/
def proseCommands : Nat → List DocPart → List DeclaredCommand
  | _, [] => []
  | lineno, .prose line _ :: rest =>
    numberedCommands rt manifest lineno [line] ++ proseCommands (lineno + 1) rest
  | lineno, .block b :: rest => proseCommands (lineno + b.content.length + 2) rest

/-- The parser takes the commands of the shell blocks, in order and with their line
numbers, and no others. -/
def Accurate (doc : PairedText) : Prop :=
  parseDeclaredCommands rt doc.text manifest = blockCommands rt manifest 1 doc.parts

/-- A line without a command. -/
def Silent (line : Str) : Prop := ∀ part ∈ splitCommandLine line, programOf rt part = []

/-- The parts have no command on a line of prose or of a shell block. -/
def SilentPart : DocPart → Prop
  | .prose line _ => Silent rt line
  | .block b => isShellFence rt b.language = true → ∀ line ∈ b.content, Silent rt line

/-- Behind the first block of another language are no commands. -/
def QuietBehindOther (parts : List DocPart) : Prop :=
  ∀ before b after, parts = before ++ .block b :: after → isShellFence rt b.language = false →
    ∀ part ∈ after, SilentPart rt part

variable {rt manifest}

/-! ## Lines without fences -/

theorem isShellFence_nil : isShellFence rt [] = true := by
  have hlower : rt.lower [] = [] := rt.lower_ascii [] fun c hc => nomatch hc
  rw [isShellFence, hlower]
  decide

/-- Lines without a fence keep the flag. -/
theorem parseLines_content {inShellBlock : Bool} {lineno : Nat} {content rest : List Str}
    (h : ∀ line ∈ content, fenceLanguage line = none) :
    parseLines rt manifest inShellBlock lineno (content ++ rest) =
      (if inShellBlock then numberedCommands rt manifest lineno content else []) ++
        parseLines rt manifest inShellBlock (lineno + content.length) rest := by
  induction content generalizing lineno with
  | nil =>
    cases inShellBlock with
    | true => rfl
    | false => rfl
  | cons line content ih =>
    have hrest := @ih (lineno + 1) fun other hother => h other (List.mem_cons_of_mem _ hother)
    rw [List.cons_append, parseLines, h line List.mem_cons_self]
    dsimp only
    rw [hrest, List.length_cons, show lineno + 1 + content.length = lineno + (content.length + 1) by omega]
    cases inShellBlock with
    | true =>
      rw [if_pos rfl, if_pos rfl, if_pos rfl, numberedCommands, List.append_assoc]
    | false => rfl

/-- A block ends with the flag up, unless it is a shell block that began with the
flag down. -/
theorem parseLines_block {inShellBlock : Bool} {lineno : Nat} (b : FencedBlock) (rest : List Str) :
    parseLines rt manifest inShellBlock lineno ((DocPart.block b).lines ++ rest) =
      (if !inShellBlock && isShellFence rt b.language then
          numberedCommands rt manifest (lineno + 1) b.content else []) ++
        parseLines rt manifest (!(!inShellBlock && isShellFence rt b.language))
          (lineno + b.content.length + 2) rest := by
  rw [DocPart.lines, List.cons_append, parseLines, b.opens]
  dsimp only
  rw [List.append_assoc, parseLines_content b.inside, List.singleton_append, parseLines, b.closes]
  dsimp only
  rw [isShellFence_nil, Bool.and_true,
    show lineno + 1 + b.content.length + 1 = lineno + b.content.length + 2 by omega]

/-! ## The two runs -/

/-- With the flag up between the parts, the parser takes the prose. -/
theorem parseLines_flipped (lineno : Nat) (parts : List DocPart) :
    parseLines rt manifest true lineno (parts.flatMap DocPart.lines) =
      proseCommands rt manifest lineno parts := by
  induction parts generalizing lineno with
  | nil => rfl
  | cons part parts ih =>
    rw [List.flatMap_cons]
    cases part with
    | prose line plain =>
      have hline : ∀ other ∈ [line], fenceLanguage other = none := by
        intro other hother
        rw [List.mem_singleton.mp hother]
        exact plain
      rw [DocPart.lines, parseLines_content hline, ih, proseCommands]
      rfl
    | block b =>
      rw [parseLines_block, Bool.not_true, Bool.false_and, Bool.not_false, ih, proseCommands]
      rfl

theorem mem_numberedCommands_line {lineno : Nat} {content : List Str} {c : DeclaredCommand}
    (h : c ∈ numberedCommands rt manifest lineno content) :
    lineno ≤ c.line ∧ c.line < lineno + content.length := by
  have hline : ∀ (n : Nat) (cwd : Str) (parts : List Str), c ∈ lineCommands rt manifest n cwd parts →
      c.line = n := by
    intro n cwd parts hc
    induction parts generalizing cwd with
    | nil => cases hc
    | cons part parts ih =>
      rw [lineCommands] at hc
      split_ifs at hc
      · exact ih _ hc
      · rcases List.mem_cons.mp hc with rfl | hc
        · rfl
        · exact ih _ hc
      · rcases List.mem_cons.mp hc with rfl | hc
        · rfl
        · exact ih _ hc
  induction content generalizing lineno with
  | nil => cases h
  | cons line content ih =>
    rw [List.length_cons]
    rcases List.mem_append.mp h with h | h
    · have hn := hline _ _ _ h
      omega
    · have hn := ih h
      omega

theorem le_of_mem_blockCommands {lineno : Nat} {parts : List DocPart} {c : DeclaredCommand}
    (h : c ∈ blockCommands rt manifest lineno parts) : lineno ≤ c.line := by
  induction parts generalizing lineno with
  | nil => cases h
  | cons part parts ih =>
    cases part with
    | prose line plain =>
      have hn := ih h
      omega
    | block b =>
      rcases List.mem_append.mp h with h | h
      · split_ifs at h
        · have hn := (mem_numberedCommands_line h).1
          omega
        · cases h
      · have hn := ih h
        omega

theorem le_of_mem_proseCommands {lineno : Nat} {parts : List DocPart} {c : DeclaredCommand}
    (h : c ∈ proseCommands rt manifest lineno parts) : lineno ≤ c.line := by
  induction parts generalizing lineno with
  | nil => cases h
  | cons part parts ih =>
    cases part with
    | prose line plain =>
      rcases List.mem_append.mp h with h | h
      · exact (mem_numberedCommands_line h).1
      · have hn := ih h
        omega
    | block b =>
      have hn := ih h
      omega

theorem numberedCommands_eq_nil_iff {lineno : Nat} {content : List Str} :
    numberedCommands rt manifest lineno content = [] ↔ ∀ line ∈ content, Silent rt line := by
  have hline : ∀ (n : Nat) (cwd : Str) (parts : List Str),
      lineCommands rt manifest n cwd parts = [] ↔ ∀ part ∈ parts, programOf rt part = [] := by
    intro n cwd parts
    induction parts generalizing cwd with
    | nil => simp [lineCommands]
    | cons part parts ih =>
      rw [lineCommands, List.forall_mem_cons]
      by_cases hprogram : programOf rt part = []
      · rw [if_pos hprogram, ih]
        exact (and_iff_right hprogram).symm
      · rw [if_neg hprogram]
        exact iff_of_false (List.cons_ne_nil _ _) fun h => hprogram h.1
  induction content generalizing lineno with
  | nil => simp [numberedCommands]
  | cons line content ih =>
    rw [numberedCommands, List.append_eq_nil_iff, hline, List.forall_mem_cons, Silent]
    exact and_congr_right fun _ => ih

/-- Commands before the others of the one list are none of the other list. -/
theorem eq_nil_of_line_lt {first first' rest : List DeclaredCommand} {n : Nat}
    (h : first ++ rest = first') (hfirst : ∀ c ∈ first, c.line < n) (hother : ∀ c ∈ first', n ≤ c.line) :
    first = [] := by
  cases first with
  | nil => rfl
  | cons c first =>
    have hlow := hfirst c List.mem_cons_self
    have hhigh := hother c (by rw [← h]; exact List.mem_cons_self)
    omega

/-- The commands of the prose are those of the blocks only where there are none of
either. -/
theorem prose_eq_block_iff {lineno : Nat} {parts : List DocPart} :
    proseCommands rt manifest lineno parts = blockCommands rt manifest lineno parts ↔
      ∀ part ∈ parts, SilentPart rt part := by
  induction parts generalizing lineno with
  | nil => simp [proseCommands, blockCommands]
  | cons part parts ih =>
    rw [List.forall_mem_cons]
    cases part with
    | prose line plain =>
      rw [proseCommands, blockCommands]
      constructor
      · intro h
        have hnil : numberedCommands rt manifest lineno [line] = [] :=
          eq_nil_of_line_lt h (fun c hc => (mem_numberedCommands_line hc).2)
            fun c hc => le_of_mem_blockCommands hc
        rw [hnil, List.nil_append] at h
        exact ⟨numberedCommands_eq_nil_iff.mp hnil line (List.mem_singleton_self _), ih.mp h⟩
      · rintro ⟨hline, hparts⟩
        have hnil : numberedCommands rt manifest lineno [line] = [] := by
          rw [numberedCommands_eq_nil_iff]
          intro other hother
          rw [List.mem_singleton.mp hother]
          exact hline
        rw [hnil, List.nil_append, ih.mpr hparts]
    | block b =>
      rw [proseCommands, blockCommands, SilentPart]
      by_cases hshell : isShellFence rt b.language = true
      · rw [if_pos hshell]
        constructor
        · intro h
          have hnil : numberedCommands rt manifest (lineno + 1) b.content = [] := by
            refine eq_nil_of_line_lt h.symm (fun c hc => ?_) fun c hc => le_of_mem_proseCommands hc
            have hn := (mem_numberedCommands_line hc).2
            omega
          rw [hnil, List.nil_append] at h
          exact ⟨fun _ => numberedCommands_eq_nil_iff.mp hnil, ih.mp h⟩
        · rintro ⟨hblock, hparts⟩
          rw [numberedCommands_eq_nil_iff.mpr (hblock hshell), List.nil_append, ih.mpr hparts]
      · rw [if_neg hshell, List.nil_append, ih]
        exact (and_iff_right fun h => absurd h hshell).symm

/-! ## Accuracy -/

/-- With the flag down before the parts, the parser is right until the first block of
another language, and takes the prose behind it. -/
theorem parseLines_eq_block_iff {lineno : Nat} {parts : List DocPart} :
    parseLines rt manifest false lineno (parts.flatMap DocPart.lines) =
        blockCommands rt manifest lineno parts ↔
      QuietBehindOther rt parts := by
  induction parts generalizing lineno with
  | nil =>
    refine iff_of_true rfl fun before b after h => ?_
    cases before with
    | nil => cases h
    | cons part before => cases h
  | cons part parts ih =>
    rw [List.flatMap_cons]
    -- A part before the first block of another language is not counted.
    have hskip : (∀ b, part = .block b → isShellFence rt b.language = true) →
        (QuietBehindOther rt (part :: parts) ↔ QuietBehindOther rt parts) := by
      intro hpart
      constructor
      · rintro h before b after rfl hother
        exact h (part :: before) b after rfl hother
      · intro h before b after heq hother
        cases before with
        | nil =>
          rw [List.nil_append, List.cons.injEq] at heq
          rw [hpart b heq.1] at hother
          cases hother
        | cons first before =>
          rw [List.cons_append, List.cons.injEq] at heq
          exact h before b after heq.2 hother
    cases part with
    | prose line plain =>
      have hline : ∀ other ∈ [line], fenceLanguage other = none := by
        intro other hother
        rw [List.mem_singleton.mp hother]
        exact plain
      rw [DocPart.lines, parseLines_content hline, hskip (fun b hb => nomatch hb), blockCommands]
      exact ih
    | block b =>
      rw [parseLines_block, Bool.not_false, Bool.true_and, blockCommands]
      by_cases hshell : isShellFence rt b.language = true
      · have hblock : ∀ b', DocPart.block b = .block b' → isShellFence rt b'.language = true := by
          intro b' hb
          cases hb
          exact hshell
        rw [hskip hblock, ← ih, hshell, Bool.not_true, List.append_cancel_left_eq]
      · rw [eq_false_of_ne_true hshell, Bool.not_false, parseLines_flipped]
        show [] ++ proseCommands rt manifest (lineno + b.content.length + 2) parts =
          [] ++ blockCommands rt manifest (lineno + b.content.length + 2) parts ↔ _
        rw [List.nil_append, List.nil_append, prose_eq_block_iff]
        constructor
        · intro h before b' after heq hother part hpart
          cases before with
          | nil =>
            rw [List.nil_append, List.cons.injEq] at heq
            rw [heq.2] at h
            exact h part hpart
          | cons first before =>
            rw [List.cons_append, List.cons.injEq] at heq
            refine h part ?_
            rw [heq.2]
            exact List.mem_append_right _ (List.mem_cons_of_mem _ hpart)
        · intro h
          exact h [] b parts rfl (eq_false_of_ne_true hshell)

variable (rt manifest) in
/-- The parser takes exactly the commands of the shell blocks when no command stands
behind a block of another language, in the prose or in a shell block. -/
theorem accurate_iff (doc : PairedText) :
    Accurate rt manifest doc ↔ QuietBehindOther rt doc.parts := by
  rw [Accurate, parseDeclaredCommands, doc.lines, parseLines_eq_block_iff]

/-- A configuration block before a shell block. -/
def configThenShell : PairedText where
  text := "```json\n\x7b\x7d\n```\nRun the tests:\n```bash\nnpm test\n```\n"
  parts := [.block ⟨"```json", "json", ["\x7b\x7d"], "```", by decide, by decide, by decide⟩,
    .prose "Run the tests:" (by decide),
    .block ⟨"```bash", "bash", ["npm test"], "```", by decide, by decide, by decide⟩]
  lines := by decide +kernel

/-- The sentence is taken for a command, and the command is not taken. -/
theorem config_flips : ¬Accurate .standard "AGENTS.md" configThenShell := by
  rw [Accurate]
  decide +kernel

end DevRepro.Agents
