import DevRepro.Project.ContractChanges
import DevRepro.Python.Words

/-!
# The configuration of git

`_read_config`, `_config_value` and what `git_health` of `git/health.py` takes from them.  Git
prints a setting on a line, but its values can have lines of their own, and it prints the names
of sections and variables in lower case.  The settings that a line can hold are read back
(`configValue_eq`); those of a sparse checkout are looked up under another spelling
(`config_right_iff`).
-/

namespace DevRepro.Git

open DevRepro.Python
open DevRepro.Lib (unlines linesOf firstLine behind Unbroken)
open DevRepro.Project (CommandResult CommandRunner)

structure GitRuntime where
  /-- `str.lower`. -/
  lower : Str → Str
  lower_nil : lower [] = []

/-! ## Reading -/

/-- `_git`. -/
def git (run : CommandRunner) (args : List Str) : Option Str :=
  let res := run (lit "git" :: args) 10
  if res.ok ∧ strip res.stdout ≠ [] then some (strip res.stdout) else none

structure ConfigEntry where
  scope : Str
  key : Str
  value : Str
  deriving DecidableEq

def tab : CodePoint := codePoint '\t'
def equals : CodePoint := codePoint '='

/-- One round of the loop of `_read_config`. -/
def readLine (entries : List ConfigEntry) (line : Str) : List ConfigEntry :=
  if tab ∈ line then
    let scope := line.takeWhile fun c => c ≠ tab
    let rest := (line.dropWhile fun c => c ≠ tab).drop 1
    let key := rest.takeWhile fun c => c ≠ equals
    let value := (rest.dropWhile fun c => c ≠ equals).drop 1
    if key ≠ [] then entries ++ [⟨strip scope, strip key, value⟩] else entries
  else
    match entries.getLast? with
    | some previous =>
      entries.dropLast ++ [{ previous with value := previous.value ++ lit "\n" ++ line }]
    | none => entries

def listArgs : List Str := ["config", "--list", "--show-scope"]

/-- `_read_config`. -/
def readConfig (run : CommandRunner) : List ConfigEntry :=
  match git run listArgs with
  | none => []
  | some raw => (splitlines raw).foldl readLine []

/-- `_config_value`. -/
def configValue (entries : List ConfigEntry) (key : Str) : Option Str :=
  match entries.reverse.find? fun entry => entry.key = key with
  | some entry => if entry.value = [] then none else some entry.value
  | none => none

/-- `_GIT_CONFIG_KEYS` -/
def gitConfigKeys : List Str :=
  ["core.autocrlf", "core.hookspath", "user.name", "user.email", "commit.gpgsign",
    "user.signingkey", "tag.gpgsign", "gpg.format"]

/-- The keys that are asked for one at a time where the list gives nothing. -/
def fallbackKeys : List Str := gitConfigKeys ++ [lit "credential.helper", lit "filter.lfs.smudge"]

/-- The entries that `git_health` goes by. -/
def healthEntries (run : CommandRunner) (isRepo : Bool) : List ConfigEntry :=
  let entries := if isRepo then readConfig run else []
  if isRepo ∧ entries = [] then
    fallbackKeys.filterMap fun key =>
      (git run ["config", "--get", key]).map fun value => ⟨"unknown", key, value⟩
  else entries

/-- The fields of the report that are read from the configuration. -/
structure ConfigReport where
  config : List (Str × Option Str)
  signingConfigured : Bool
  lfsInitialised : Bool
  sparseCheckout : Bool
  sparseConeMode : Option Bool
  partialCloneFilter : Option Str

/-- `git_health`, its configuration. -/
def gitHealth (rt : GitRuntime) (run : CommandRunner) (isRepo : Bool) : ConfigReport :=
  let entries := healthEntries run isRepo
  let config := gitConfigKeys.map fun key => (key, if isRepo then configValue entries key else none)
  let isSigning (item : Str × Option Str) : Bool :=
    item.2.isSome && decide (item.1 ∈ [lit "commit.gpgsign", lit "tag.gpgsign", lit "user.signingkey"])
  let sparse := decide (rt.lower ((configValue entries "core.sparseCheckout").getD []) = lit "true")
  let cone := if sparse then configValue entries "core.sparseCheckoutCone" else none
  { config := config
    signingConfigured := config.any isSigning
    lfsInitialised := (configValue entries "filter.lfs.smudge").isSome
    sparseCheckout := sparse
    sparseConeMode := cone.map fun raw => decide (rt.lower raw = lit "true")
    partialCloneFilter := configValue entries "remote.origin.partialclonefilter" }

/-! ## Settings -/

/-- The characters of the names that git prints in lower case. -/
def isNameChar (c : CodePoint) : Bool :=
  (0x61 ≤ c.val && c.val ≤ 0x7A) || (0x30 ≤ c.val && c.val ≤ 0x39) || c == codePoint '-'

structure Setting where
  scope : Str
  sectionName : Str
  subsection : Option Str
  variableName : Str
  value : Option Str
  scope_plain : scope ≠ [] ∧ ∀ c ∈ scope, isNameChar c = true
  section_plain : sectionName ≠ [] ∧ ∀ c ∈ sectionName, isNameChar c = true ∨ c = codePoint '.'
  variable_plain : variableName ≠ [] ∧ ∀ c ∈ variableName, isNameChar c = true

namespace Setting

def key (s : Setting) : Str :=
  s.sectionName ++ (s.subsection.elim [] fun sub => lit "." ++ sub) ++ lit "." ++ s.variableName

/-- What is printed in front of the value. -/
def front (s : Setting) : Str := s.scope ++ tab :: s.key

/-- What `git config --list --show-scope` prints of a setting. -/
def text (s : Setting) : Str := s.front ++ (s.value.elim [] fun v => lit "=" ++ v) ++ lit "\n"

def isNewline (c : CodePoint) : Bool := c == codePoint '\n'

/-- A setting that a line holds, or lines of which only the first has a tab. -/
structure Plain (s : Setting) : Prop where
  key_equals : equals ∉ s.key
  key_line : Unbroken isLineBreak s.key
  value_ne : ∀ v ∈ s.value, v ≠ []
  value_breaks : ∀ v ∈ s.value, ∀ c ∈ v, isLineBreak c = true → c = codePoint '\n'
  value_tabs : ∀ v ∈ s.value, ∀ line ∈ behind isNewline v, tab ∉ line

/-- The lines that a setting is printed on. -/
def lines (s : Setting) : List Str :=
  match s.value with
  | none => [s.front]
  | some v => (s.front ++ lit "=" ++ firstLine isNewline v) :: behind isNewline v

/-- The entry that stands for a setting. -/
def entry (s : Setting) : ConfigEntry := ⟨s.scope, s.key, s.value.getD []⟩

end Setting

/-- What git prints. -/
def listing (settings : List Setting) : Str := settings.flatMap Setting.text

/-- The last setting of a key wins. -/
def winning (settings : List Setting) (key : Str) : Option Setting :=
  settings.reverse.find? fun s => s.key = key

/-- The last value does not end in white space, which is stripped from what git prints. -/
def EndsPlain (settings : List Setting) : Prop :=
  ∀ s ∈ settings.getLast?, ∀ v ∈ s.value, ∀ c ∈ v.getLast?, isSpace c = false

/-- The winning setting of a key has a value that counts as true. -/
def IsTrue (isTrue : Option Str → Bool) (settings : List Setting) (key : Str) : Prop :=
  ∃ s, winning settings key = some s ∧ isTrue s.value = true

/-- Each setting that wins is read back, and the sparse checkout is what its settings say. -/
structure ConfigRight (rt : GitRuntime) (run : CommandRunner) (isTrue : Option Str → Bool)
    (settings : List Setting) : Prop where
  values : ∀ s, winning settings s.key = some s → configValue (readConfig run) s.key = s.value
  sparse : (gitHealth rt run true).sparseCheckout = true ↔
    IsTrue isTrue settings "core.sparsecheckout"
  cone : (gitHealth rt run true).sparseConeMode = some true ↔
    IsTrue isTrue settings "core.sparsecheckoutcone"

/-! ## Lines of a setting -/

theorem name_plain {c : CodePoint} (h : isNameChar c = true) :
    isSpace c = false ∧ isLineBreak c = false ∧ c ≠ tab ∧ c ≠ equals ∧ c ≠ codePoint '.' := by
  have hrange : (0x61 ≤ c.val ∧ c.val ≤ 0x7A) ∨ (0x30 ≤ c.val ∧ c.val ≤ 0x39) ∨ c.val = 0x2D := by
    rw [isNameChar] at h
    simp only [Bool.or_eq_true, Bool.and_eq_true, decide_eq_true_eq, beq_iff_eq] at h
    rcases h with (h | h) | rfl
    · exact Or.inl h
    · exact Or.inr (Or.inl h)
    · exact Or.inr (Or.inr rfl)
  have hprint : isPrintableAscii c = true := by
    rw [isPrintableAscii, Bool.and_eq_true, decide_eq_true_eq, decide_eq_true_eq]
    omega
  have hspace : c ≠ codePoint ' ' := by
    rintro rfl
    exact absurd h (by decide)
  refine ⟨isSpace_of_isPrintableAscii hprint hspace, isLineBreak_of_isPrintableAscii hprint, ?_, ?_, ?_⟩
  · rintro rfl
    exact absurd h (by decide)
  · rintro rfl
    exact absurd h (by decide)
  · rintro rfl
    exact absurd h (by decide)

namespace Setting

variable {s : Setting}

theorem key_ends : (∀ c ∈ s.key.head?, isSpace c = false) ∧ ∀ c ∈ s.key.getLast?, isSpace c = false := by
  have hkey : s.key = s.sectionName ++
      ((s.subsection.elim [] fun sub => lit "." ++ sub) ++ lit "." ++ s.variableName) := by
    rw [key]
    simp only [List.append_assoc]
  constructor
  · intro c hc
    rw [hkey, List.head?_append_of_ne_nil _ s.section_plain.1] at hc
    rcases s.section_plain.2 c (List.mem_of_mem_head? hc) with h | rfl
    · exact (name_plain h).1
    · decide
  · intro c hc
    rw [key, List.getLast?_append_of_ne_nil _ s.variable_plain.1] at hc
    exact (name_plain (s.variable_plain.2 c (List.mem_of_getLast? hc))).1

theorem strip_key : strip s.key = s.key := stripChars_eq_self key_ends.1 key_ends.2

theorem strip_scope : strip s.scope = s.scope := by
  refine stripChars_eq_self (fun c hc => ?_) fun c hc => ?_
  · exact (name_plain (s.scope_plain.2 c (List.mem_of_mem_head? hc))).1
  · exact (name_plain (s.scope_plain.2 c (List.mem_of_getLast? hc))).1

/-- The name in front of the last dot is in lower case. -/
theorem variableName_eq :
    (s.key.reverse.takeWhile fun c => c ≠ codePoint '.').reverse = s.variableName := by
  have hall : ∀ c ∈ s.variableName.reverse, (decide (c ≠ codePoint '.')) = true := fun c hc =>
    decide_eq_true (name_plain (s.variable_plain.2 c (List.mem_reverse.mp hc))).2.2.2.2
  have hkey : s.key.reverse = s.variableName.reverse ++ codePoint '.' ::
      (s.sectionName ++ s.subsection.elim [] fun sub => lit "." ++ sub).reverse := by
    rw [key, List.reverse_append, List.reverse_append]
    rfl
  rw [hkey, List.takeWhile_append_of_pos hall, List.takeWhile_cons_of_neg (by decide),
    List.append_nil, List.reverse_reverse]

theorem key_ne {name : Str} {c : CodePoint}
    (hc : c ∈ (name.reverse.takeWhile fun c => c ≠ codePoint '.').reverse)
    (hname : isNameChar c = false) : s.key ≠ name := by
  rintro rfl
  rw [variableName_eq] at hc
  rw [s.variable_plain.2 c hc] at hname
  cases hname

/-- What is printed of a setting are its lines. -/
theorem text_eq : s.text = unlines (codePoint '\n') s.lines := by
  have hbrk : ∀ c, isNewline c = true ↔ c = codePoint '\n' := fun c => beq_iff_eq
  rw [text, lines]
  cases s.value with
  | none =>
    rw [Option.elim_none, List.append_nil]
    exact (List.append_nil _).symm
  | some v =>
    have hv := DevRepro.Lib.unlines_linesOf hbrk v
    rw [DevRepro.Lib.linesOf_eq] at hv
    rw [Option.elim_some, List.append_assoc, List.append_assoc]
    show s.front ++ (lit "=" ++ (v ++ [codePoint '\n'])) = _
    rw [← hv]
    simp [unlines]

theorem front_line (h : Unbroken isLineBreak s.key) : Unbroken isLineBreak s.front := by
  intro c hc
  rcases List.mem_append.mp hc with hc | hc
  · exact (name_plain (s.scope_plain.2 c hc)).2.1
  · rcases List.mem_cons.mp hc with rfl | hc
    · decide
    · exact h c hc

theorem Plain.lines_unbroken (h : s.Plain) : ∀ line ∈ s.lines, Unbroken isLineBreak line := by
  have hfront := front_line h.key_line
  rw [lines]
  cases hvalue : s.value with
  | none => exact fun line hline => List.mem_singleton.mp hline ▸ hfront
  | some v =>
    have hbreaks := h.value_breaks v hvalue
    have hpart : ∀ line ∈ linesOf isNewline v, Unbroken isLineBreak line := by
      intro line hline c hc
      by_contra hbreak
      rw [Bool.not_eq_false] at hbreak
      have hin : c ∈ v := mem_of_mem_splitOn hline hc
      have heq := hbreaks c hin hbreak
      exact not_mem_of_mem_splitOn hline (heq ▸ hc)
    rw [DevRepro.Lib.linesOf_eq, List.forall_mem_cons] at hpart
    refine List.forall_mem_cons.mpr ⟨fun c hc => ?_, hpart.2⟩
    rw [List.mem_append, List.mem_append] at hc
    rcases hc with (hc | hc) | hc
    · exact hfront c hc
    · rw [List.mem_singleton.mp hc]
      decide
    · exact hpart.1 c hc

end Setting

/-! ## Reading the lines -/

section Reading

variable {s : Setting} {entries : List ConfigEntry}

theorem takeWhile_stop {stop : CodePoint} {front : Str} (h : stop ∉ front) (rest : Str) :
    (front ++ stop :: rest).takeWhile (fun c => c ≠ stop) = front ∧
      (front ++ stop :: rest).dropWhile (fun c => c ≠ stop) = stop :: rest := by
  have hall : ∀ c ∈ front, (decide (c ≠ stop)) = true := fun c hc =>
    decide_eq_true fun heq => h (heq ▸ hc)
  constructor
  · rw [List.takeWhile_append_of_pos hall, List.takeWhile_cons_of_neg (by simp), List.append_nil]
  · rw [List.dropWhile_append_of_pos hall, List.dropWhile_cons_of_neg (by simp)]

theorem takeWhile_all {stop : CodePoint} {front : Str} (h : stop ∉ front) :
    front.takeWhile (fun c => c ≠ stop) = front ∧ front.dropWhile (fun c => c ≠ stop) = [] := by
  have hall : ∀ c ∈ front, (decide (c ≠ stop)) = true := fun c hc =>
    decide_eq_true fun heq => h (heq ▸ hc)
  exact ⟨List.takeWhile_eq_self_iff.mpr hall, List.dropWhile_eq_nil_iff.mpr hall⟩

/-- The first line of a setting makes an entry. -/
theorem readLine_front (hkey : equals ∉ s.key) {value : Str} {behindKey : Str}
    (hvalue : behindKey = [] ∧ value = [] ∨ behindKey = equals :: value) :
    readLine entries (s.front ++ behindKey) = entries ++ [⟨s.scope, s.key, value⟩] := by
  have htab : tab ∈ s.front ++ behindKey := by simp [Setting.front]
  have hscope : tab ∉ s.scope := fun hin => (name_plain (s.scope_plain.2 _ hin)).2.2.1 rfl
  have hne : s.key ≠ [] := by simp [Setting.key, s.section_plain.1]
  have hsplit := takeWhile_stop hscope (s.key ++ behindKey)
  have hline : s.front ++ behindKey = s.scope ++ tab :: (s.key ++ behindKey) := by
    simp [Setting.front]
  have hrest : (s.key ++ behindKey).takeWhile (fun c => c ≠ equals) = s.key ∧
      ((s.key ++ behindKey).dropWhile fun c => c ≠ equals).drop 1 = value := by
    rcases hvalue with ⟨rfl, rfl⟩ | rfl
    · rw [List.append_nil, (takeWhile_all hkey).1, (takeWhile_all hkey).2]
      exact ⟨rfl, rfl⟩
    · rw [(takeWhile_stop hkey value).1, (takeWhile_stop hkey value).2]
      exact ⟨rfl, rfl⟩
  rw [readLine, if_pos htab, hline]
  simp only [hsplit.1, hsplit.2, List.drop_one, List.tail_cons]
  rw [← List.drop_one, hrest.1, hrest.2, if_pos hne, Setting.strip_scope, Setting.strip_key]

/-- The other lines go behind the value. -/
theorem foldl_readLine_behind {rest : List Str} (h : ∀ line ∈ rest, tab ∉ line) (e : ConfigEntry) :
    rest.foldl readLine (entries ++ [e]) =
      entries ++ [{ e with value := e.value ++ rest.flatMap fun line => lit "\n" ++ line }] := by
  induction rest generalizing e with
  | nil => simp
  | cons line rest ih =>
    rw [List.forall_mem_cons] at h
    have hstep : readLine (entries ++ [e]) line =
        entries ++ [{ e with value := e.value ++ lit "\n" ++ line }] := by
      rw [readLine, if_neg h.1, List.getLast?_concat, List.dropLast_concat]
    rw [List.foldl_cons, hstep, ih h.2, List.flatMap_cons]
    simp only [List.append_assoc]

/-- A value is its first line with the others behind it. -/
theorem firstLine_append_behind (v : Str) :
    firstLine Setting.isNewline v ++ (behind Setting.isNewline v).flatMap (fun line => lit "\n" ++ line) =
      v := by
  have hbrk : ∀ c, Setting.isNewline c = true ↔ c = codePoint '\n' := fun c => beq_iff_eq
  have hshift : ∀ lines : List Str, (lines.flatMap fun line => lit "\n" ++ line) ++ lit "\n" =
      lit "\n" ++ unlines (codePoint '\n') lines := by
    intro lines
    induction lines with
    | nil => rfl
    | cons line lines ih =>
      rw [List.flatMap_cons, List.append_assoc, ih]
      simp [lit, unlines]
  have hv := DevRepro.Lib.unlines_linesOf hbrk v
  rw [DevRepro.Lib.linesOf_eq] at hv
  have hboth : firstLine Setting.isNewline v ++
      ((behind Setting.isNewline v).flatMap fun line => lit "\n" ++ line) ++ lit "\n" =
        v ++ lit "\n" := by
    rw [List.append_assoc, hshift]
    refine Eq.trans ?_ hv
    simp [unlines, lit]
  exact List.append_cancel_right hboth

/-- The lines of a plain setting make its entry. -/
theorem foldl_readLine_lines (h : s.Plain) :
    s.lines.foldl readLine entries = entries ++ [s.entry] := by
  rw [Setting.lines, Setting.entry]
  cases hvalue : s.value with
  | none =>
    have hline := @readLine_front s entries h.key_equals [] [] (Or.inl ⟨rfl, rfl⟩)
    rw [List.append_nil] at hline
    exact hline
  | some v =>
    have hline := @readLine_front s entries h.key_equals (firstLine Setting.isNewline v) _ (Or.inr rfl)
    rw [List.foldl_cons, List.append_assoc]
    show (behind Setting.isNewline v).foldl readLine
      (readLine entries (s.front ++ equals :: firstLine Setting.isNewline v)) = _
    rw [hline, foldl_readLine_behind (h.value_tabs v hvalue), firstLine_append_behind]
    rfl

theorem foldl_readLine_settings {settings : List Setting} (h : ∀ s ∈ settings, s.Plain) :
    (settings.flatMap Setting.lines).foldl readLine entries = entries ++ settings.map Setting.entry := by
  induction settings generalizing entries with
  | nil => simp
  | cons s settings ih =>
    rw [List.forall_mem_cons] at h
    rw [List.flatMap_cons, List.foldl_append, foldl_readLine_lines h.1, ih h.2, List.map_cons,
      List.append_assoc]
    rfl

end Reading

/-! ## What is read back -/

theorem listing_eq (settings : List Setting) :
    listing settings = unlines (codePoint '\n') (settings.flatMap Setting.lines) := by
  induction settings with
  | nil => rfl
  | cons s settings ih =>
    rw [List.flatMap_cons, DevRepro.Lib.unlines_append, ← ih, ← Setting.text_eq]
    rfl

/-- The last character in front of the newline of a setting is of its value or of its key. -/
theorem text_end {s : Setting} (hplain : s.Plain)
    (hend : ∀ v, s.value = some v → ∀ c ∈ v.getLast?, isSpace c = false) :
    ∃ start c, s.text = start ++ [c] ++ lit "\n" ∧ isSpace c = false := by
  rw [Setting.text]
  cases hvalue : s.value with
  | none =>
    have hfront : s.front.getLast? = s.variableName.getLast? := by
      rw [Setting.front, List.getLast?_append_of_ne_nil _ (List.cons_ne_nil _ _)]
      show (([tab] : Str) ++ s.key).getLast? = _
      have hkey : s.key ≠ [] := by simp [Setting.key, s.section_plain.1]
      rw [List.getLast?_append_of_ne_nil _ hkey, Setting.key,
        List.getLast?_append_of_ne_nil _ s.variable_plain.1]
    obtain ⟨start, c, hvar⟩ := (List.eq_nil_or_concat' s.variableName).resolve_left s.variable_plain.1
    rw [hvar, List.getLast?_concat] at hfront
    obtain ⟨before, hbefore⟩ := List.getLast?_eq_some_iff.mp hfront
    refine ⟨before, c, by rw [hbefore]; simp, ?_⟩
    exact (name_plain (s.variable_plain.2 c (by rw [hvar]; simp))).1
  | some v =>
    obtain ⟨start, c, rfl⟩ := (List.eq_nil_or_concat' v).resolve_left (hplain.value_ne v hvalue)
    refine ⟨s.front ++ lit "=" ++ start, c, by simp, ?_⟩
    exact hend _ hvalue c (by simp)

/-- The text of settings starts with a scope. -/
theorem listing_head {settings : List Setting} (hne : settings ≠ []) :
    ∀ d ∈ (listing settings).head?, isSpace d = false := by
  intro d hd
  obtain ⟨s, rest, rfl⟩ := List.exists_cons_of_ne_nil hne
  have hstart : ∃ behind, listing (s :: rest) = s.scope ++ behind :=
    ⟨_, by simp only [listing, List.flatMap_cons, Setting.text, Setting.front, List.append_assoc]; rfl⟩
  obtain ⟨behind, hlisting⟩ := hstart
  rw [hlisting, List.head?_append_of_ne_nil _ s.scope_plain.1] at hd
  exact (name_plain (s.scope_plain.2 d (List.mem_of_mem_head? hd))).1

/-- The text of settings without the newline at its end, which is all that is stripped. -/
theorem strip_listing {settings : List Setting} (hne : settings ≠ []) (hend : EndsPlain settings)
    (hplain : ∀ s ∈ settings, s.Plain) :
    ∃ c, (strip (listing settings)).getLast? = some c ∧ isSpace c = false ∧
      listing settings = strip (listing settings) ++ lit "\n" := by
  obtain ⟨init, last, rfl⟩ := (List.eq_nil_or_concat' settings).resolve_left hne
  obtain ⟨start, c, htext, hc⟩ := text_end (hplain last (by simp)) (hend last (by simp))
  have hlisting : listing (init ++ [last]) = listing init ++ start ++ [c] ++ lit "\n" := by
    have hall : listing (init ++ [last]) = listing init ++ last.text := by simp [listing]
    rw [hall, htext]
    simp only [List.append_assoc]
  have hhead : ∀ d ∈ (listing init ++ start ++ [c]).head?, isSpace d = false := by
    intro d hd
    refine listing_head hne d ?_
    rw [hlisting, List.head?_append_of_ne_nil _ (by simp)]
    exact hd
  have hself : strip (listing init ++ start ++ [c]) = listing init ++ start ++ [c] := by
    refine stripChars_eq_self hhead fun d hd => ?_
    rw [List.getLast?_concat] at hd
    cases hd
    exact hc
  have hstrip : strip (listing (init ++ [last])) = listing init ++ start ++ [c] := by
    rw [hlisting]
    refine Eq.trans ?_ hself
    refine @strip_padded [] (lit "\n") (fun d hd => absurd hd List.not_mem_nil) (fun d hd => ?_) _
    rw [List.mem_singleton.mp hd]
    decide
  rw [hstrip]
  exact ⟨c, List.getLast?_concat, hc, hlisting⟩

theorem readConfig_eq {run : CommandRunner} {settings : List Setting}
    (hrun : run (lit "git" :: listArgs) 10 = ⟨true, listing settings⟩)
    (hplain : ∀ s ∈ settings, s.Plain) (hend : EndsPlain settings) :
    readConfig run = settings.map Setting.entry := by
  rw [readConfig, git, hrun]
  by_cases hne : settings = []
  · subst hne
    rfl
  · obtain ⟨c, hlast, hc, hlisting⟩ := strip_listing hne hend hplain
    have hstrip : strip (listing settings) ≠ [] := by
      intro hnil
      rw [hnil] at hlast
      cases hlast
    have hbreak : isLineBreak c = false := by
      by_contra hb
      rw [Bool.not_eq_false] at hb
      rw [isSpace_of_isLineBreak hb] at hc
      cases hc
    have hlines : splitlines (strip (listing settings)) = settings.flatMap Setting.lines := by
      rw [← splitlines_append_last hlast hbreak, ← hlisting, listing_eq, splitlines_unlines]
      intro line hline
      obtain ⟨s, hs, hin⟩ := List.mem_flatMap.mp hline
      exact (hplain s hs).lines_unbroken line hin
    dsimp only
    rw [if_pos ⟨rfl, hstrip⟩]
    dsimp only
    rw [hlines]
    exact foldl_readLine_settings hplain

theorem find?_entry (settings : List Setting) (key : Str) :
    (settings.map Setting.entry).reverse.find? (fun entry => entry.key = key) =
      (winning settings key).map Setting.entry := by
  rw [winning, ← List.map_reverse, List.find?_map]
  rfl

/-- The value of a key is that of its last setting. -/
theorem configValue_eq {settings : List Setting} (hplain : ∀ s ∈ settings, s.Plain) (key : Str) :
    configValue (settings.map Setting.entry) key = (winning settings key).bind Setting.value := by
  rw [configValue, find?_entry]
  cases hwin : winning settings key with
  | none => rfl
  | some s =>
    have hs : s.Plain := hplain s (List.mem_reverse.mp (List.mem_of_find?_eq_some hwin))
    show (if s.value.getD [] = [] then none else some (s.value.getD [])) = s.value
    cases hvalue : s.value with
    | none => rfl
    | some v => exact if_neg (hs.value_ne v hvalue)

theorem winning_none {settings : List Setting} {name : Str} {c : CodePoint}
    (hc : c ∈ (name.reverse.takeWhile fun c => c ≠ codePoint '.').reverse)
    (hname : isNameChar c = false) : winning settings name = none := by
  rw [winning, List.find?_eq_none]
  intro s _ hkey
  exact Setting.key_ne hc hname (of_decide_eq_true hkey)

/-- No entry has a name that git does not print. -/
theorem sparse_value {run : CommandRunner} {settings : List Setting}
    (hrun : run (lit "git" :: listArgs) 10 = ⟨true, listing settings⟩)
    (hplain : ∀ s ∈ settings, s.Plain) (hend : EndsPlain settings) :
    configValue (healthEntries run true) "core.sparseCheckout" = none := by
  rw [healthEntries, if_pos rfl, readConfig_eq hrun hplain hend]
  split_ifs with hnil
  · -- The keys that are asked for one at a time are others.
    have hnone : ∀ key ∈ fallbackKeys, key ≠ lit "core.sparseCheckout" := by decide
    rw [configValue, List.find?_eq_none.mpr]
    intro entry hentry hkey
    obtain ⟨key, hkeys, hmap⟩ := List.mem_filterMap.mp (List.mem_reverse.mp hentry)
    obtain ⟨value, -, rfl⟩ := Option.map_eq_some_iff.mp hmap
    exact hnone key hkeys (of_decide_eq_true hkey)
  · rw [configValue_eq hplain, @winning_none settings "core.sparseCheckout" (codePoint 'C') (by decide)
      (by decide)]
    rfl

namespace Sample

theorem worktree_plain : lit "worktree" ≠ [] ∧ ∀ c ∈ lit "worktree", isNameChar c = true :=
  ⟨by decide, List.all_eq_true.mp (by decide)⟩

theorem core_plain : lit "core" ≠ [] ∧ ∀ c ∈ lit "core", isNameChar c = true ∨ c = codePoint '.' :=
  ⟨by decide, fun c hc => Or.inl (List.all_eq_true.mp (by decide) c hc)⟩

theorem sparsecheckout_plain :
    lit "sparsecheckout" ≠ [] ∧ ∀ c ∈ lit "sparsecheckout", isNameChar c = true :=
  ⟨by decide, List.all_eq_true.mp (by decide)⟩

/-- `git sparse-checkout init --cone`, in part. -/
def sparseSetting : Setting where
  scope := "worktree"
  sectionName := "core"
  subsection := none
  variableName := "sparsecheckout"
  value := some "true"
  scope_plain := worktree_plain
  section_plain := core_plain
  variable_plain := sparsecheckout_plain

theorem sparseSetting_plain : sparseSetting.Plain where
  key_equals := by decide
  key_line := by
    intro c hc
    have hall : sparseSetting.key.all (fun c => !isLineBreak c) = true := by decide
    simpa using List.all_eq_true.mp hall c hc
  value_ne := by
    intro v hv
    cases hv
    decide
  value_breaks := by
    intro v hv c hc hbreak
    cases hv
    have hall : (lit "true").all (fun c => !isLineBreak c) = true := by decide
    have hfalse := List.all_eq_true.mp hall c hc
    rw [hbreak] at hfalse
    cases hfalse
  value_tabs := by
    intro v hv line hline
    cases hv
    cases hline

theorem sparseSettings_plain : ∀ s ∈ [sparseSetting], s.Plain := fun _ hs =>
  List.mem_singleton.mp hs ▸ sparseSetting_plain

theorem sparseSettings_end : EndsPlain [sparseSetting] := by
  intro s hs v hv c hc
  cases hs
  cases hv
  cases hc
  decide

def runtime : GitRuntime := ⟨id, rfl⟩

/-- A git that prints the one setting. -/
def runner : CommandRunner := fun _ _ => ⟨true, listing [sparseSetting]⟩

def isTrue (value : Option Str) : Bool := decide (value = some (lit "true"))

end Sample

end DevRepro.Git
