import DevRepro.Project.ToolVersions

/-!
# The tools of mise

For which texts of `mise.toml` the requirements are the entries of its `[tools]` table
(`plainEntry_iff`), and `readOneWay_iff` for both files.
-/

namespace DevRepro.Project

open DevRepro.Python DevRepro.Lib DevRepro.Agents DevRepro.Snapshots

/-! ## `mise.toml` -/

/-- A character between two that are not stripped stays. -/
theorem mem_stripChars_between {p : CodePoint → Bool} {a b : Str} {x : CodePoint}
    (ha : ∃ c ∈ a, p c = false) (hb : ∃ d ∈ b, p d = false) : x ∈ stripChars p (a ++ x :: b) := by
  obtain ⟨c, hc, hpc⟩ := ha
  obtain ⟨d, hd, hpd⟩ := hb
  have hdrop : (a ++ x :: b).dropWhile p = a.dropWhile p ++ x :: b := by
    rw [List.dropWhile_append, if_neg]
    rw [List.isEmpty_iff, List.dropWhile_eq_nil_iff]
    intro hall
    rw [hall c hc] at hpc
    cases hpc
  obtain ⟨before, after, rfl⟩ := List.append_of_mem hd
  have hgroup : a.dropWhile p ++ x :: (before ++ d :: after) =
      (a.dropWhile p ++ x :: before) ++ d :: after := by simp
  rw [stripChars_eq, hdrop, hgroup, stripEnd_append_cons hpd]
  simp

/-- The value of an assignment with the whitespace behind it. -/
theorem restOfLine_eq {rest value : Str} (h : restOfLine rest = some value) :
    (strip rest = [] ∧ ∀ c ∈ value, isSpace c = true) ∨
      ∃ blanks, value = strip rest ++ blanks ∧ ∀ c ∈ blanks, isSpace c = true := by
  unfold restOfLine at h
  cases hdrop : rest.dropWhile isSpace with
  | nil =>
    rw [hdrop] at h
    obtain ⟨c, hc, rfl⟩ := Option.map_eq_some_iff.mp h
    have hall := List.dropWhile_eq_nil_iff.mp hdrop
    refine Or.inl ⟨(strip_eq_nil_iff rest).mpr hall, fun d hd => ?_⟩
    rw [List.mem_singleton.mp hd]
    exact hall c (List.mem_of_getLast? hc)
  | cons c others =>
    rw [hdrop] at h
    obtain rfl := Option.some.inj h
    refine Or.inr ⟨((rest.dropWhile isSpace).reverse.takeWhile isSpace).reverse, ?_, fun d hd =>
      List.mem_takeWhile_imp (List.mem_reverse.mp hd)⟩
    rw [strip, ← List.reverse_append, List.takeWhile_append_dropWhile, List.reverse_reverse, hdrop]

section Assignments

variable {rt : AgentRuntime} {line name value : Str}

theorem miseAssignment_eq_some (h : miseAssignment rt line = some (name, value)) :
    ∃ before gap rest, line = before ++ (name ++ (gap ++ codePoint '=' :: rest)) ∧
      (∀ c ∈ before, isSpace c = true) ∧ (∀ c ∈ gap, isSpace c = true) ∧ name ≠ [] ∧
      (∀ c ∈ name, isWordDash rt c = true) ∧ restOfLine rest = some value := by
  unfold miseAssignment at h
  dsimp only at h
  split at h
  · rename_i first others c rest hname hrest
    split_ifs at h with hc
    obtain ⟨text, htext, heq⟩ := Option.map_eq_some_iff.mp h
    obtain ⟨hkey, rfl⟩ := Prod.mk.inj heq
    refine ⟨line.takeWhile isSpace, ((line.dropWhile isSpace).dropWhile (isWordDash rt)).takeWhile
      isSpace, rest, ?_, fun d hd => List.mem_takeWhile_imp hd, fun d hd =>
      List.mem_takeWhile_imp hd, ?_, ?_, htext⟩
    · rw [← hkey, ← hc, ← hrest, List.takeWhile_append_dropWhile,
        List.takeWhile_append_dropWhile, List.takeWhile_append_dropWhile]
    · rw [← hkey, hname]
      exact List.cons_ne_nil _ _
    · intro d hd
      rw [← hkey] at hd
      exact List.mem_takeWhile_imp hd
  · cases h

end Assignments

/-- A character of a bare key is none of the signs around it. -/
theorem bareKeyChar_ne {rt : AgentRuntime} {c d : CodePoint} (hc : isWordDash rt c = true)
    (hd : d.val < 128) (hsign : isWordDash .standard d = false) : c ≠ d := by
  rintro rfl
  have hsame : isWordDash rt c = isWordDash .standard c := by
    rw [isWordDash, isWordDash, rt.isAlnum_ascii c hd]
    rfl
  rw [hsame, hsign] at hc
  cases hc

theorem bareKeyChar_not_space {rt : WordRuntime} {c : CodePoint}
    (hc : isWordDash rt.toAgentRuntime c = true) : isSpace c = false := by
  rw [isWordDash, Bool.or_eq_true, Bool.or_eq_true, beq_iff_eq, beq_iff_eq] at hc
  rcases hc with (hc | rfl) | rfl
  · exact rt.isAlnum_space c hc
  · decide
  · decide

section Entries

variable {rt : WordRuntime} {line name value : Str}

/-- A line with a bare key, without the whitespace around it. -/
theorem strip_assignment {before gap rest : Str} (hbefore : ∀ c ∈ before, isSpace c = true)
    (hne : name ≠ []) (hname : ∀ c ∈ name, isWordDash rt.toAgentRuntime c = true) :
    strip (before ++ (name ++ (gap ++ codePoint '=' :: rest))) =
      (name ++ gap) ++ codePoint '=' :: stripEnd isSpace rest := by
  obtain ⟨c, others, rfl⟩ := List.exists_cons_of_ne_nil hne
  have hc := bareKeyChar_not_space (hname c List.mem_cons_self)
  have hdrop : (before ++ (c :: others ++ (gap ++ codePoint '=' :: rest))).dropWhile isSpace =
      (c :: others ++ gap) ++ codePoint '=' :: rest := by
    rw [List.dropWhile_append_of_pos hbefore, List.cons_append,
      List.dropWhile_cons_of_neg (by simp [hc])]
    simp
  rw [strip_eq_stripChars, stripChars_eq, hdrop, stripEnd_append_cons (by decide)]

/-- A bare key is read as it is. -/
theorem bareKey_read {gap : Str} (hgap : ∀ c ∈ gap, isSpace c = true)
    (hname : ∀ c ∈ name, isWordDash rt.toAgentRuntime c = true) :
    stripChars isSingle (stripChars isDouble (strip (name ++ gap))) = name := by
  have hends : ∀ p : CodePoint → Bool, (∀ d ∈ name, p d = false) → stripChars p name = name :=
    fun p hp => stripChars_eq_self (fun d hd => hp d (List.mem_of_mem_head? hd)) fun d hd =>
      hp d (List.mem_of_getLast? hd)
  have hdouble : ∀ d ∈ name, isDouble d = false := fun d hd =>
    beq_eq_false_iff_ne.mpr (bareKeyChar_ne (hname d hd) (by decide) (by decide))
  have hsingle : ∀ d ∈ name, isSingle d = false := fun d hd =>
    beq_eq_false_iff_ne.mpr (bareKeyChar_ne (hname d hd) (by decide) (by decide))
  have hstrip : strip (name ++ gap) = name := by
    have hspace : ∀ d ∈ name, isSpace d = false := fun d hd => bareKeyChar_not_space (hname d hd)
    have hpadded := @strip_padded [] gap nofun hgap name
    rw [List.nil_append, strip_eq_stripChars name, hends isSpace hspace] at hpadded
    exact hpadded
  rw [hstrip, hends _ hdouble, hends _ hsingle]

/-- The entry of a bare key. -/
theorem toolEntry_assignment {gap value : Str} (hgap : ∀ c ∈ gap, isSpace c = true)
    (hname : ∀ c ∈ name, isWordDash rt.toAgentRuntime c = true) :
    toolEntry ((name ++ gap) ++ codePoint '=' :: value) =
      ((tableVersion (strip value)).or (quotedStart (strip value))).map fun version =>
        (name, version) := by
  have hkey : ∀ d ∈ name ++ gap, (d != codePoint '=') = true := by
    intro d hd
    rw [bne_iff_ne]
    rcases List.mem_append.mp hd with hd | hd
    · exact bareKeyChar_ne (hname d hd) (by decide) (by decide)
    · rintro rfl
      exact absurd (hgap _ hd) (by decide)
  have htake : ((name ++ gap) ++ codePoint '=' :: value).takeWhile (fun d => d != codePoint '=') =
      name ++ gap := by
    rw [List.takeWhile_append_of_pos hkey, List.takeWhile_cons_of_neg (by simp), List.append_nil]
  have hdrop : ((name ++ gap) ++ codePoint '=' :: value).dropWhile (fun d => d != codePoint '=') =
      codePoint '=' :: value := by
    rw [List.dropWhile_append_of_pos hkey, List.dropWhile_cons_of_neg (by simp)]
  rw [toolEntry, if_pos (by simp), htake, hdrop]
  dsimp only
  rw [bareKey_read hgap hname, List.drop_one, List.tail_cons]

/-- The entry of a line with a bare key. -/
theorem miseLine_assignment (h : miseAssignment rt.toAgentRuntime line = some (name, value))
    (inTools : Bool) : ∃ rest, restOfLine rest = some value ∧ (miseLine inTools line).1 =
      if inTools then
        ((tableVersion (strip rest)).or (quotedStart (strip rest))).map fun version => (name, version)
      else none := by
  obtain ⟨before, gap, rest, rfl, hbefore, hgap, hne, hname, hrest⟩ := miseAssignment_eq_some h
  refine ⟨rest, hrest, ?_⟩
  have hstart : ∀ sign : CodePoint, sign.val < 128 → isWordDash .standard sign = false →
      startsWith ((name ++ gap) ++ codePoint '=' :: stripEnd isSpace rest) [sign] = false := by
    intro sign hascii hsign
    obtain ⟨c, others, rfl⟩ := List.exists_cons_of_ne_nil hne
    rw [startsWith, ← Bool.not_eq_true, List.isPrefixOf_iff_prefix]
    intro hprefix
    exact bareKeyChar_ne (hname c List.mem_cons_self) hascii hsign
      (List.cons_prefix_cons.mp hprefix).1.symm
  have hhash : startsWith ((name ++ gap) ++ codePoint '=' :: stripEnd isSpace rest) "#" = false :=
    hstart (codePoint '#') (by decide) (by decide)
  have hopen : startsWith ((name ++ gap) ++ codePoint '=' :: stripEnd isSpace rest) "[" = false :=
    hstart (codePoint '[') (by decide) (by decide)
  rw [miseLine, strip_assignment hbefore hne hname]
  rw [hhash, hopen, if_neg (by simp), if_neg Bool.false_ne_true, toolEntry_assignment hgap hname,
    strip_stripEnd]

/-! ## Quoted values -/

/-- The text that `"([^"]+)"` takes. -/
theorem quotedStart_eq_some {s v : Str} :
    quotedStart s = some v ↔ ∃ behind, s = codePoint '"' :: (v ++ codePoint '"' :: behind) ∧ v ≠ [] ∧
      ∀ c ∈ v, isDouble c = false := by
  cases s with
  | nil =>
    refine iff_of_false (fun h => nomatch h) ?_
    rintro ⟨behind, heq, -⟩
    cases heq
  | cons c rest =>
    rw [quotedStart]
    constructor
    · intro h
      split_ifs at h with hquote
      obtain ⟨rfl, hne, hlength⟩ := hquote
      obtain rfl := Option.some.inj h
      have hclean : ∀ d ∈ rest.takeWhile (fun d => !isDouble d), isDouble d = false := fun d hd => by
        simpa using List.mem_takeWhile_imp hd
      have hsplit := List.takeWhile_append_dropWhile (p := fun d => !isDouble d) (l := rest)
      cases hdrop : rest.dropWhile fun d => !isDouble d with
      | nil =>
        rw [hdrop, List.append_nil] at hsplit
        rw [hsplit] at hlength
        exact absurd hlength (lt_irrefl _)
      | cons d behind =>
        have hd := List.head?_dropWhile_not (fun d => !isDouble d) rest
        rw [hdrop] at hd hsplit
        have hquote : d = codePoint '"' := by simpa [isDouble] using hd
        exact ⟨behind, by rw [← hquote, hsplit], hne, hclean⟩
    · rintro ⟨behind, heq, hne, hclean⟩
      obtain ⟨rfl, rfl⟩ := List.cons.inj heq
      have htake : (v ++ codePoint '"' :: behind).takeWhile (fun d => !isDouble d) = v := by
        rw [List.takeWhile_append_of_pos fun d hd => by rw [hclean d hd]; rfl,
          List.takeWhile_cons_of_neg (by decide), List.append_nil]
      rw [htake, if_pos ⟨rfl, hne, by simp⟩]

theorem quotedStart_isSome_iff {s : Str} : (quotedStart s).isSome = true ↔ StartsQuoted s := by
  rw [Option.isSome_iff_exists]
  exact exists_congr fun v => quotedStart_eq_some

/-- The text that `version\s*=\s*"([^"]+)"` takes. -/
theorem versionHere_eq_some {s v : Str} : versionHere s = some v ↔ ∃ gap blanks quoted,
    s = lit "version" ++ (gap ++ codePoint '=' :: (blanks ++ quoted)) ∧
      (∀ c ∈ gap, isSpace c = true) ∧ (∀ c ∈ blanks, isSpace c = true) ∧ quotedStart quoted = some v := by
  have hequals : isSpace (codePoint '=') = false := by decide
  rw [versionHere]
  constructor
  · intro h
    split_ifs at h with hstart
    obtain ⟨behind, rfl⟩ := List.isPrefixOf_iff_prefix.mp hstart
    rw [show (lit "version" ++ behind).drop 7 = behind from rfl] at h
    cases hdrop : behind.dropWhile isSpace with
    | nil =>
      rw [hdrop] at h
      cases h
    | cons c rest =>
      rw [hdrop] at h
      dsimp only at h
      split_ifs at h with hc
      refine ⟨behind.takeWhile isSpace, rest.takeWhile isSpace, rest.dropWhile isSpace, ?_,
        fun d hd => List.mem_takeWhile_imp hd, fun d hd => List.mem_takeWhile_imp hd, h⟩
      rw [List.takeWhile_append_dropWhile, ← hc, ← hdrop, List.takeWhile_append_dropWhile]
  · rintro ⟨gap, blanks, quoted, rfl, hgap, hblanks, hquoted⟩
    obtain ⟨behind, hcons, -⟩ := quotedStart_eq_some.mp hquoted
    have hstart : startsWith (lit "version" ++ (gap ++ codePoint '=' :: (blanks ++ quoted))) "version" =
        true := List.isPrefixOf_iff_prefix.mpr ⟨_, rfl⟩
    have hdrop : (lit "version" ++ (gap ++ codePoint '=' :: (blanks ++ quoted))).drop 7 =
        gap ++ codePoint '=' :: (blanks ++ quoted) := rfl
    have hquote : quoted.dropWhile isSpace = quoted := by
      rw [hcons, List.dropWhile_cons_of_neg (by decide)]
    rw [if_pos hstart, hdrop, List.dropWhile_append_of_pos hgap,
      List.dropWhile_cons_of_neg (by simp [hequals])]
    dsimp only
    rw [if_pos rfl, List.dropWhile_append_of_pos hblanks, hquote, hquoted]

/-- A version within braces stands between two quotes. -/
theorem tableVersion_eq_some {s v : Str} (h : tableVersion s = some v) :
    ∃ before behind, s = codePoint '\x7b' :: (before ++ codePoint '"' ::
      (v ++ codePoint '"' :: behind)) ∧ v ≠ [] ∧ ∀ c ∈ v, isDouble c = false := by
  cases s with
  | nil => cases h
  | cons c rest =>
    rw [tableVersion] at h
    split_ifs at h with hc
    obtain ⟨tail, htail, hversion⟩ := List.exists_of_findSome?_eq_some h
    obtain ⟨front, hfront⟩ := (List.mem_tails _ _).mp htail
    obtain ⟨gap, blanks, quoted, rfl, -, -, hquoted⟩ := versionHere_eq_some.mp hversion
    obtain ⟨behind, rfl, hne, hclean⟩ := quotedStart_eq_some.mp hquoted
    refine ⟨front ++ (lit "version" ++ (gap ++ codePoint '=' :: blanks)), behind, ?_, hne, hclean⟩
    rw [hc, ← hfront]
    simp

/-- A table has a version when one of its texts is `version = ` with a quoted text. -/
theorem givesVersion_iff {value : Str} :
    ((tableVersion value).or (quotedStart value)).isSome = true ↔ GivesVersion value := by
  have htable : (tableVersion value).isSome = true ↔ ∃ before gap blanks quoted,
      value = codePoint '\x7b' ::
          (before ++ (lit "version" ++ (gap ++ codePoint '=' :: (blanks ++ quoted)))) ∧
        (∀ c ∈ gap, isSpace c = true) ∧ (∀ c ∈ blanks, isSpace c = true) ∧ StartsQuoted quoted := by
    cases value with
    | nil =>
      refine iff_of_false Bool.false_ne_true ?_
      rintro ⟨before, gap, blanks, quoted, heq, -⟩
      cases heq
    | cons c rest =>
      rw [tableVersion]
      split_ifs with hc
      · rw [List.findSome?_isSome_iff]
        constructor
        · rintro ⟨tail, htail, hsome⟩
          obtain ⟨v, hversion⟩ := Option.isSome_iff_exists.mp hsome
          obtain ⟨before, hbefore⟩ := (List.mem_tails _ _).mp htail
          obtain ⟨gap, blanks, quoted, rfl, hgap, hblanks, hquoted⟩ := versionHere_eq_some.mp hversion
          refine ⟨before, gap, blanks, quoted, by rw [hc, hbefore], hgap, hblanks, ?_⟩
          exact quotedStart_isSome_iff.mp (Option.isSome_iff_exists.mpr ⟨v, hquoted⟩)
        · rintro ⟨before, gap, blanks, quoted, heq, hgap, hblanks, hquoted⟩
          obtain ⟨v, hv⟩ := Option.isSome_iff_exists.mp (quotedStart_isSome_iff.mpr hquoted)
          obtain ⟨-, rfl⟩ := List.cons.inj heq
          refine ⟨_, (List.mem_tails _ _).mpr (List.suffix_append before _),
            Option.isSome_iff_exists.mpr ⟨v, ?_⟩⟩
          exact versionHere_eq_some.mpr ⟨gap, blanks, quoted, rfl, hgap, hblanks, hv⟩
      · refine iff_of_false Bool.false_ne_true ?_
        rintro ⟨before, gap, blanks, quoted, heq, -⟩
        exact hc (List.cons.inj heq).1
  rw [Option.isSome_or, Bool.or_eq_true, htable, quotedStart_isSome_iff, GivesVersion]
  exact or_comm

/-- The entry of a line has the version behind its first `=`. -/
theorem toolEntry_isSome_iff {line : Str} : (toolEntry line).isSome = true ↔ ∃ key value,
    line = key ++ codePoint '=' :: value ∧ codePoint '=' ∉ key ∧ GivesVersion (strip value) := by
  rw [toolEntry]
  constructor
  · intro h
    split_ifs at h with hequals
    · rw [Option.isSome_map, givesVersion_iff] at h
      have hsplit := List.takeWhile_append_dropWhile (p := fun c => c != codePoint '=') (l := line)
      cases hdrop : line.dropWhile fun c => c != codePoint '=' with
      | nil =>
        rw [List.dropWhile_eq_nil_iff] at hdrop
        exact absurd (hdrop _ hequals) (by simp)
      | cons c value =>
        have hc := List.head?_dropWhile_not (fun c => c != codePoint '=') line
        rw [hdrop] at hc hsplit h
        obtain rfl : c = codePoint '=' := by simpa using hc
        refine ⟨line.takeWhile fun c => c != codePoint '=', value, hsplit.symm, fun hmem => ?_, h⟩
        have hother := List.mem_takeWhile_imp hmem
        simp at hother
    · cases h
  · rintro ⟨key, value, rfl, hkey, hversion⟩
    have hother : ∀ c ∈ key, (c != codePoint '=') = true := by
      intro c hc
      rw [bne_iff_ne]
      rintro rfl
      exact hkey hc
    have hdrop : (key ++ codePoint '=' :: value).dropWhile (fun c => c != codePoint '=') =
        codePoint '=' :: value := by
      rw [List.dropWhile_append_of_pos hother, List.dropWhile_cons_of_neg (by simp)]
    rw [if_pos (by simp), hdrop, Option.isSome_map]
    exact givesVersion_iff.mpr hversion

/-- A line of the `[tools]` table has an entry when it gives a tool a version. -/
theorem miseLine_isSome_iff (inTools : Bool) (line : Str) :
    (miseLine inTools line).1.isSome = true ↔ inTools = true ∧ GivesTool line := by
  rw [miseLine, GivesTool]
  split_ifs with hblank hheader htools
  · refine iff_of_false Bool.false_ne_true ?_
    rintro ⟨-, hcomment, -, key, value, hline, -⟩
    rcases hblank with hnil | hhash
    · rw [hnil] at hline
      exact absurd hline.symm (List.append_ne_nil_of_right_ne_nil _ (List.cons_ne_nil _ _))
    · rw [hhash] at hcomment
      cases hcomment
  · refine iff_of_false Bool.false_ne_true ?_
    rintro ⟨-, -, hother, -⟩
    rw [hheader] at hother
    cases hother
  · rw [not_or, Bool.not_eq_true] at hblank
    rw [Bool.not_eq_true] at hheader
    rw [toolEntry_isSome_iff, and_iff_right htools, and_iff_right hblank.2, and_iff_right hheader]
  · exact iff_of_false Bool.false_ne_true fun hand => htools hand.1

theorem bareSpec_mem {value : Str} {c : CodePoint} (h : c ∈ stripChars isDouble value)
    (hc : isSingle c = false) : c ∈ bareSpec value := by
  have hmem : c ∈ stripChars isSingle (stripChars isDouble value) := mem_stripChars h hc
  rw [bareSpec]
  rwa [if_neg (List.ne_nil_of_mem hmem)]

/-- A quoted text with only quotes behind it, without its quotes. -/
theorem stripChars_quoted {v behind : Str} (hne : v ≠ []) (hclean : ∀ c ∈ v, isDouble c = false)
    (hbehind : ∀ c ∈ behind, isDouble c = true) :
    stripChars isDouble (codePoint '"' :: (v ++ codePoint '"' :: behind)) = v := by
  have hall : ∀ c ∈ codePoint '"' :: behind, isDouble c = true := by
    intro c hc
    rcases List.mem_cons.mp hc with rfl | hc
    · decide
    · exact hbehind c hc
  have hdrop : (codePoint '"' :: (v ++ codePoint '"' :: behind)).dropWhile isDouble =
      v ++ codePoint '"' :: behind := by
    obtain ⟨c, rest, rfl⟩ := List.exists_cons_of_ne_nil hne
    rw [List.dropWhile_cons_of_pos (by decide), List.cons_append,
      List.dropWhile_cons_of_neg (by simp [hclean c List.mem_cons_self])]
  have hend : stripEnd isDouble (v ++ codePoint '"' :: behind) = v := by
    have hgone : stripEnd isDouble (v ++ codePoint '"' :: behind) = stripEnd isDouble v := by
      rw [stripEnd, List.reverse_append,
        List.dropWhile_append_of_pos fun d hd => hall d (List.mem_reverse.mp hd)]
      rfl
    rw [hgone, stripEnd_eq_self fun c hc => hclean c (List.mem_of_getLast? hc)]
  rw [stripChars_eq, hdrop, hend]

/-- Stripping the single quotes of a text leaves it alone when it has none at its ends. -/
theorem bareSpec_quoted_iff {v behind : Str} (hne : v ≠ []) (hclean : ∀ c ∈ v, isDouble c = false)
    (hbehind : ∀ c ∈ behind, isDouble c = true) :
    bareSpec (codePoint '"' :: (v ++ codePoint '"' :: behind)) = v ↔
      (∀ c ∈ v.head?, isSingle c = false) ∧ ∀ c ∈ v.getLast?, isSingle c = false := by
  rw [bareSpec]
  rw [stripChars_quoted hne hclean hbehind]
  constructor
  · intro h
    have hsame : stripChars isSingle v = v := by
      split_ifs at h with hnil
      · rw [← h] at hnil
        exact absurd hnil (by decide)
      · exact h
    rw [← hsame]
    refine ⟨stripChars_head, fun c hc => ?_⟩
    rw [stripChars_eq] at hc
    exact stripEnd_getLast c hc
  · rintro ⟨hhead, hlast⟩
    rw [stripChars_eq_self hhead hlast, if_neg hne]

/-- A value with quotes at both ends is the text behind the sign without whitespace. -/
theorem strip_quoted {rest v behind : Str} (h : restOfLine rest = some value)
    (hvalue : value = codePoint '"' :: (v ++ codePoint '"' :: behind))
    (hbehind : ∀ c ∈ behind, isDouble c = true) : strip rest = value := by
  rcases restOfLine_eq h with ⟨-, hblank⟩ | ⟨blanks, heq, hblanks⟩
  · have hbad := hblank (codePoint '"') (by rw [hvalue]; exact List.mem_cons_self)
    exact absurd hbad (by decide)
  · have hnil : blanks = [] := by
      by_contra hsome
      -- The last character is a quote, not whitespace.
      have hlast : (codePoint '"' :: behind).getLast? = some (blanks.getLast hsome) := by
        have hends := congrArg List.getLast? (hvalue.symm.trans heq)
        rw [← List.cons_append, List.getLast?_append_of_ne_nil _ (List.cons_ne_nil _ _),
          List.getLast?_append_of_ne_nil _ hsome, List.getLast?_eq_getLast_of_ne_nil hsome] at hends
        exact hends
      have hspace := hblanks _ (List.getLast_mem hsome)
      rcases List.mem_cons.mp (List.mem_of_getLast? hlast) with hquote | hin
      · rw [hquote] at hspace
        exact absurd hspace (by decide)
      · have hquote : blanks.getLast hsome = codePoint '"' := beq_iff_eq.mp (hbehind _ hin)
        rw [hquote] at hspace
        exact absurd hspace (by decide)
    rw [hnil, List.append_nil] at heq
    exact heq.symm

/-- A quote between two characters that stay is in the spec. -/
theorem quote_in_bareSpec {a b : Str} (ha : ∃ c ∈ a, isDouble c = false)
    (hb : ∃ d ∈ b, isDouble d = false) (hvalue : value = a ++ codePoint '"' :: b) : codePoint '"' ∈ bareSpec value :=
  bareSpec_mem (hvalue ▸ mem_stripChars_between ha hb) (by decide)

/-- A version that is the spec of its value stands in plain quotes. -/
theorem plainQuoted_of_version {rest : Str} (h : restOfLine rest = some value)
    (hversion : (tableVersion (strip rest)).or (quotedStart (strip rest)) = some (bareSpec value)) :
    PlainQuoted value := by
  have hvalue : ∃ blanks, value = strip rest ++ blanks := by
    rcases restOfLine_eq h with ⟨hnil, -⟩ | ⟨blanks, hvalue, -⟩
    · rw [hnil] at hversion
      cases hversion
    · exact ⟨blanks, hvalue⟩
  obtain ⟨blanks, hvalue⟩ := hvalue
  rcases Option.or_eq_some_iff.mp hversion with htable | ⟨-, hquoted⟩
  · -- A table keeps a quote that no version has.
    obtain ⟨before, behind, hrest, hne, hclean⟩ := tableVersion_eq_some htable
    obtain ⟨c, hc⟩ := List.exists_mem_of_ne_nil _ hne
    have heq : value = (codePoint '\x7b' :: before) ++ codePoint '"' ::
        (bareSpec value ++ codePoint '"' :: (behind ++ blanks)) := by
      conv_lhs => rw [hvalue, hrest]
      simp
    have hmem := quote_in_bareSpec ⟨_, List.mem_cons_self, by decide⟩
      ⟨c, List.mem_append_left _ hc, hclean c hc⟩ heq
    exact absurd (hclean _ hmem) (by decide)
  · obtain ⟨behind, hrest, hne, hclean⟩ := quotedStart_eq_some.mp hquoted
    have heq : value = codePoint '"' :: (bareSpec value ++ codePoint '"' :: (behind ++ blanks)) := by
      conv_lhs => rw [hvalue, hrest]
      simp
    have hbehind : ∀ c ∈ behind ++ blanks, isDouble c = true := by
      intro d hd
      by_contra hnot
      rw [Bool.not_eq_true] at hnot
      obtain ⟨c, hc⟩ := List.exists_mem_of_ne_nil _ hne
      have hmem := quote_in_bareSpec ⟨c, List.mem_cons_of_mem _ hc, hclean c hc⟩ ⟨d, hd, hnot⟩ heq
      exact absurd (hclean _ hmem) (by decide)
    obtain ⟨hhead, hlast⟩ := (bareSpec_quoted_iff hne hclean hbehind).mp (by rw [← heq])
    exact ⟨bareSpec value, behind ++ blanks, heq, hne, hclean, hhead, hlast, hbehind⟩

/-- The spec of a value is the version that the version managers read exactly when the value
is a plain quoted text. -/
theorem bareSpec_eq_version_iff {rest : Str} (h : restOfLine rest = some value) :
    (tableVersion (strip rest)).or (quotedStart (strip rest)) = some (bareSpec value) ↔
      PlainQuoted value := by
  constructor
  · exact plainQuoted_of_version h
  · rintro ⟨v, behind, hvalue, hne, hclean, hhead, hlast, hbehind⟩
    have hspec : bareSpec value = v := by
      rw [hvalue]
      exact (bareSpec_quoted_iff hne hclean hbehind).mpr ⟨hhead, hlast⟩
    have htable : tableVersion value = none := by
      rw [hvalue, tableVersion, if_neg (by decide)]
    rw [strip_quoted h hvalue hbehind, htable, Option.none_or, hspec]
    exact quotedStart_eq_some.mpr ⟨behind, hvalue, hne, hclean⟩

/-- A plain line of `mise.toml` is read one way. -/
theorem plainEntry_iff (inTools : Bool) (line : Str) :
    PlainEntry rt.toAgentRuntime inTools line ↔
      miseReqLine rt.toAgentRuntime line = (miseLine inTools line).1 := by
  unfold PlainEntry miseReqLine
  cases hassign : miseAssignment rt.toAgentRuntime line with
  | none =>
    show ¬(inTools = true ∧ GivesTool line) ↔ none = (miseLine inTools line).1
    rw [← miseLine_isSome_iff, Bool.not_eq_true, Option.isSome_eq_false_iff, Option.isNone_iff_eq_none]
    exact eq_comm
  | some item =>
    obtain ⟨name, value⟩ := item
    obtain ⟨rest, hrest, hline⟩ := miseLine_assignment hassign inTools
    rw [hline]
    cases inTools with
    | false => exact iff_of_false (fun h => nomatch h.1) fun h => nomatch h
    | true =>
      rw [if_pos rfl]
      dsimp only
      rw [← bareSpec_eq_version_iff hrest, and_iff_right rfl, Option.map_some]
      cases (tableVersion (strip rest)).or (quotedStart (strip rest)) with
      | none => exact iff_of_false (fun h => nomatch h) fun h => nomatch h
      | some version =>
        rw [Option.map_some, Option.some.injEq, Option.some.injEq, Prod.mk.injEq, and_iff_right rfl]
        exact eq_comm

end Entries

theorem withTables_lines (inTools : Bool) (lines : List Str) :
    (withTables inTools lines).map Prod.snd = lines := by
  induction lines generalizing inTools with
  | nil => rfl
  | cons line rest ih => rw [withTables, List.map_cons, ih]

/-- The requirements of `mise.toml`, line by line. -/
theorem miseReqs_lines (rt : AgentRuntime) (source text : Str) :
    (miseReqs rt source text).map (fun r => (r.name, r.spec)) =
      ((splitlines text).filterMap (miseReqLine rt)).map fun item => (lit "mise:" ++ item.1, item.2) := by
  have hlines : (splitlines text).filterMap (miseReqLine rt) =
      ((splitlines text).filterMap (miseAssignment rt)).map fun item => (item.1, bareSpec item.2) := by
    rw [List.map_filterMap]
    rfl
  rw [miseReqs, hlines, List.map_map, List.map_map]
  rfl

/-- A text of plain lines has the same on both sides. -/
theorem miseAgree_iff (rt : WordRuntime) (text : Str) : MiseAgree rt.toAgentRuntime text ↔
    ∀ entry ∈ withTables false (splitlines text), PlainEntry rt.toAgentRuntime entry.1 entry.2 := by
  constructor
  · exact fun h entry hentry => (plainEntry_iff entry.1 entry.2).mpr (h.lines entry hentry)
  · intro h
    have hlines : ∀ entry ∈ withTables false (splitlines text),
        miseReqLine rt.toAgentRuntime entry.2 = (miseLine entry.1 entry.2).1 :=
      fun entry hentry => (plainEntry_iff entry.1 entry.2).mp (h entry hentry)
    refine ⟨fun source => ?_, hlines⟩
    have hsame : (splitlines text).filterMap (miseReqLine rt.toAgentRuntime) =
        (withTables false (splitlines text)).filterMap fun entry => (miseLine entry.1 entry.2).1 := by
      conv_lhs => rw [← withTables_lines false (splitlines text), List.filterMap_map]
      exact List.filterMap_congr hlines
    rw [miseReqs_lines, hsame, parseMiseTomlTools, List.map_map]
    rfl

/-- Both files are read one way exactly when all of their lines are plain. -/
theorem readOneWay_iff (rt : WordRuntime) :
    (∀ source text, ToolVersionsAgree source text ↔ ∀ line ∈ splitlines text, PlainPin line) ∧
      ∀ text, MiseAgree rt.toAgentRuntime text ↔ ∀ entry ∈ withTables false (splitlines text),
        PlainEntry rt.toAgentRuntime entry.1 entry.2 :=
  ⟨toolVersionsAgree_iff, miseAgree_iff rt⟩

/-- The second version of a tool is not required, and a variable of the `[env]` table is. -/
theorem files_read_apart :
    ¬ToolVersionsAgree ".tool-versions" "python 3.11 3.12" ∧
      (miseReqs .standard "mise.toml" "[env]\nTZ = \"UTC\"").map (fun r => (r.name, r.spec)) =
        [(lit "mise:TZ", lit "UTC")] ∧
      ¬MiseAgree .standard "[env]\nTZ = \"UTC\"" := by
  refine ⟨fun h => absurd (h "python") (by decide +kernel), by decide +kernel, fun h => ?_⟩
  have hlines : (withTables false (splitlines "[env]\nTZ = \"UTC\"")).all (fun entry =>
      decide (miseReqLine .standard entry.2 = (miseLine entry.1 entry.2).1)) = false := by
    decide +kernel
  rw [List.all_eq_false] at hlines
  obtain ⟨entry, hentry, hne⟩ := hlines
  exact hne (decide_eq_true (h.lines entry hentry))

end DevRepro.Project
