import DevRepro.Lib.AddNew
import DevRepro.Lib.MapM
import DevRepro.Project.CiParsers

/-!
# The lines of a matrix

What the patterns of `parse_workflow_matrices` make of the lines that a matrix is written
with: the keys, the items, the pairs and the flow lists.
-/

namespace DevRepro.Project

open DevRepro.Python DevRepro.Lib DevRepro.Agents

/-! ## Values -/

/-- Whitespace. -/
def IsBlank (s : Str) : Prop := ∀ c ∈ s, isSpace c = true

/-- What no plain value has: the signs of comments, of lists and mappings and of keys. -/
def valueSigns : Str := lit "#,[]\x7b\x7d:"

/-- A text on one line that begins and ends with a sign of its own. -/
structure Token (t : Str) : Prop where
  ne_nil : t ≠ []
  head : ∀ c ∈ t.head?, isSpace c = false
  last : ∀ c ∈ t.getLast?, isSpace c = false
  clean : ∀ c ∈ t, c ∉ valueSigns

/-- A value that needs no quotes. -/
structure PlainValue (v : Str) : Prop extends Token v where
  bare : ∀ c ∈ v, isQuote c = false

/-- How a value is written: as it is, or in quotes. -/
inductive Written (v : Str) : Str → Prop
  | bare : Written v v
  | quoted {q : CodePoint} (hq : isQuote q = true) : Written v (q :: (v ++ [q]))

theorem isQuote_cases {q : CodePoint} (h : isQuote q = true) :
    q = codePoint '"' ∨ q = codePoint '\'' := by
  rw [isQuote, Bool.or_eq_true, beq_iff_eq, beq_iff_eq] at h
  exact h

/-- A value is a token, however it is written. -/
theorem Written.token {v t : Str} (h : Written v t) (hv : PlainValue v) : Token t := by
  cases h with
  | bare => exact hv.toToken
  | @quoted q hq =>
    have hsign : isSpace q = false ∧ q ∉ valueSigns := by
      rcases isQuote_cases hq with rfl | rfl
      · decide
      · decide
    refine ⟨List.cons_ne_nil _ _, ?_, ?_, ?_⟩
    · intro c hc
      exact Option.some_inj.mp hc ▸ hsign.1
    · intro c hc
      rw [← List.cons_append, List.getLast?_append] at hc
      exact Option.some_inj.mp hc ▸ hsign.1
    · intro c hc
      rcases List.mem_cons.mp hc with rfl | hc
      · exact hsign.2
      · rcases List.mem_append.mp hc with hc | hc
        · exact hv.clean c hc
        · exact List.mem_singleton.mp hc ▸ hsign.2

theorem Token.strip_eq {t : Str} (h : Token t) : strip t = t := by
  rw [strip_eq_stripChars]
  exact stripChars_eq_self h.head h.last

/-- The value is what `_unquote` makes of it, with whitespace around it. -/
theorem Written.unquote_eq {v t : Str} (h : Written v t) (hv : PlainValue v) {l r : Str}
    (hl : IsBlank l) (hr : IsBlank r) : unquote (l ++ t ++ r) = v := by
  have hbare : stripChars isQuote v = v :=
    stripChars_eq_self (fun c hc => hv.bare c (List.mem_of_mem_head? hc))
      fun c hc => hv.bare c (List.mem_of_mem_getLast? hc)
  have hstripped : stripChars isQuote t = v := by
    cases h with
    | bare => exact hbare
    | @quoted q hq =>
      have hends : stripEnd isQuote (v ++ [q]) = stripEnd isQuote v := by
        rw [stripEnd, List.reverse_append, List.reverse_singleton, List.singleton_append,
          List.dropWhile_cons_of_pos hq]
        rfl
      have hhead : (v ++ [q]).dropWhile isQuote = v ++ [q] := by
        obtain ⟨c, rest, hv'⟩ := List.exists_cons_of_ne_nil hv.ne_nil
        have hc := hv.bare c (hv' ▸ List.mem_cons_self)
        rw [hv', List.cons_append, List.dropWhile_cons_of_neg (by simp [hc])]
      rw [stripChars_eq, List.dropWhile_cons_of_pos hq, hhead, hends]
      exact stripEnd_eq_self fun c hc => hv.bare c (List.mem_of_mem_getLast? hc)
  rw [unquote, strip_padded hl hr, (h.token hv).strip_eq, hstripped, hv.strip_eq]

theorem PlainValue.counts {v : Str} (h : PlainValue v) : countsAsValue v = true := by
  have hplain : isTemplate v = false := by
    rw [isTemplate, ← Bool.not_eq_true, containsText_iff]
    intro hin
    have hbrace : codePoint '\x7b' ∈ lit "$\x7b\x7b" := by decide
    have hsign : codePoint '\x7b' ∈ valueSigns := by decide
    exact h.clean _ (hin.subset hbrace) hsign
  rw [countsAsValue, hplain, Bool.not_false, Bool.and_true, bne_iff_ne]
  exact h.ne_nil

/-- A value without signs, quotes and whitespace is plain. -/
theorem plainValue_of_checks {v : Str} (hne : v ≠ [])
    (hall : v.all (fun c => !isSpace c && !isQuote c && decide (c ∉ valueSigns)) = true) :
    PlainValue v := by
  have heach : ∀ c ∈ v, isSpace c = false ∧ isQuote c = false ∧ c ∉ valueSigns := by
    intro c hc
    have hchecked := List.all_eq_true.mp hall c hc
    rw [Bool.and_eq_true, Bool.and_eq_true, Bool.not_eq_true', Bool.not_eq_true',
      decide_eq_true_iff] at hchecked
    exact ⟨hchecked.1.1, hchecked.1.2, hchecked.2⟩
  exact ⟨⟨hne, fun c hc => (heach c (List.mem_of_mem_head? hc)).1,
    fun c hc => (heach c (List.mem_of_mem_getLast? hc)).1, fun c hc => (heach c hc).2.2⟩,
    fun c hc => (heach c hc).2.1⟩

/-! ## Ends of lines -/

theorem dropWhile_token {gap t : Str} (hgap : IsBlank gap) (h : Token t) :
    (gap ++ t).dropWhile isSpace = t := by
  obtain ⟨c, rest, rfl⟩ := List.exists_cons_of_ne_nil h.ne_nil
  rw [List.dropWhile_append_of_pos hgap, List.dropWhile_cons_of_neg (by simp [h.head c rfl])]

/-- A text that has no comment and does not end with whitespace does not end before its end. -/
theorem endsHere_eq_false {s : Str} (hne : s ≠ []) (hlast : ∀ c ∈ s.getLast?, isSpace c = false)
    (hclean : codePoint '#' ∉ s) : endsHere s = false := by
  rw [endsHere]
  split
  · next hblank =>
    rw [List.dropWhile_eq_nil_iff] at hblank
    have hend := List.getLast?_eq_some_getLast hne
    have hspace := hblank _ (List.getLast_mem hne)
    rw [hlast _ hend] at hspace
    cases hspace
  · next c rest hrest =>
    rw [beq_eq_false_iff_ne]
    rintro rfl
    exact hclean ((List.dropWhile_suffix isSpace).subset (hrest ▸ List.mem_cons_self))

theorem Token.no_comment {t : Str} (h : Token t) : codePoint '#' ∉ t := fun hc =>
  h.clean _ hc (by decide)

theorem Token.no_colon {t : Str} (h : Token t) : codePoint ':' ∉ t := fun hc =>
  h.clean _ hc (by decide)

theorem untilComment_eq_self {s : Str} (hlast : ∀ c ∈ s.getLast?, isSpace c = false)
    (hclean : codePoint '#' ∉ s) : untilComment s = s := by
  induction s with
  | nil => rfl
  | cons c rest ih =>
    rw [untilComment, endsHere_eq_false (List.cons_ne_nil _ _) hlast hclean,
      if_neg Bool.false_ne_true]
    cases rest with
    | nil => rfl
    | cons d rest =>
      rw [List.getLast?_cons_cons] at hlast
      rw [ih hlast fun hc => hclean (List.mem_cons_of_mem _ hc)]

theorem plainText_token {gap t : Str} (hgap : IsBlank gap) (h : Token t) :
    plainText (gap ++ t) = some t := by
  have hwhole := untilComment_eq_self h.last h.no_comment
  rw [plainText, dropWhile_token hgap h]
  obtain ⟨c, rest, rfl⟩ := List.exists_cons_of_ne_nil h.ne_nil
  rw [untilComment, endsHere_eq_false (List.cons_ne_nil _ _) h.last h.no_comment,
    if_neg Bool.false_ne_true] at hwhole
  exact congrArg some hwhole

/-! ## Keys -/

section Keys

variable {rt : WordRuntime}

/-- A name that stands before a colon. -/
structure KeyName (rt : WordRuntime) (name : Str) : Prop where
  ne_nil : name ≠ []
  chars : ∀ c ∈ name, isNameChar rt.toAgentRuntime c = true
  head : ∀ c ∈ name.head?, c ≠ codePoint '-'

/-- A character of ASCII is one of a name in every interpreter or in none. -/
theorem isNameChar_ascii {c : CodePoint} (hc : c.val < 128) :
    isNameChar rt.toAgentRuntime c = isNameChar AgentRuntime.standard c := by
  rw [isNameChar, isNameChar, isWordDash, isWordDash, rt.isAlnum_ascii c hc]
  rfl

/-- A name in ASCII is one in every interpreter. -/
theorem keyName_of_ascii {name : Str} (hne : name ≠ [])
    (hall : name.all (fun c => decide (c.val < 128) && isNameChar AgentRuntime.standard c &&
      c != codePoint '-') = true) : KeyName rt name := by
  have heach : ∀ c ∈ name, isNameChar rt.toAgentRuntime c = true ∧ c ≠ codePoint '-' := by
    intro c hc
    have hchecked := List.all_eq_true.mp hall c hc
    rw [Bool.and_eq_true, Bool.and_eq_true, decide_eq_true_iff, bne_iff_ne] at hchecked
    exact ⟨(isNameChar_ascii hchecked.1.1).trans hchecked.1.2, hchecked.2⟩
  exact ⟨hne, fun c hc => (heach c hc).1, fun c hc => (heach c (List.mem_of_mem_head? hc)).2⟩

theorem isNameChar_not_space {c : CodePoint} (h : isNameChar rt.toAgentRuntime c = true) :
    isSpace c = false := by
  rw [isNameChar, isWordDash, Bool.or_eq_true, Bool.or_eq_true, Bool.or_eq_true, beq_iff_eq,
    beq_iff_eq, beq_iff_eq] at h
  rcases h with ((h | rfl) | rfl) | rfl
  · exact rt.isAlnum_space c h
  · decide
  · decide
  · decide

theorem isNameChar_blank {c : CodePoint} (h : isSpace c = true) :
    isNameChar rt.toAgentRuntime c = false := by
  rw [← Bool.not_eq_true]
  intro hname
  rw [isNameChar_not_space hname] at h
  cases h

theorem isNameChar_colon : isNameChar rt.toAgentRuntime (codePoint ':') = false := by
  rw [isNameChar_ascii (by decide)]
  decide

theorem isNameChar_brace : isNameChar rt.toAgentRuntime (codePoint '\x7b') = false := by
  rw [isNameChar_ascii (by decide)]
  decide

theorem isNameChar_bracket : isNameChar rt.toAgentRuntime (codePoint ']') = false := by
  rw [isNameChar_ascii (by decide)]
  decide

theorem keyAndRest_key {name : Str} (h : KeyName rt name) (rest : Str) :
    keyAndRest rt.toAgentRuntime (name ++ codePoint ':' :: rest) = some (name, rest) := by
  have hkey : (name ++ codePoint ':' :: rest).takeWhile (isNameChar rt.toAgentRuntime) = name := by
    rw [List.takeWhile_append_of_pos h.chars,
      List.takeWhile_cons_of_neg (by rw [isNameChar_colon]; exact Bool.false_ne_true), List.append_nil]
  have hcolon : startsWith (codePoint ':' :: rest) ":" = true :=
    List.isPrefixOf_iff_prefix.mpr ⟨rest, rfl⟩
  rw [keyAndRest, hkey, List.drop_left, if_pos ⟨h.ne_nil, hcolon⟩, ← List.drop_drop, List.drop_left]
  rfl

/-- What has no colon behind its name characters has no key. -/
theorem keyAndRest_eq_none {text : Str}
    (h : startsWith (text.dropWhile (isNameChar rt.toAgentRuntime)) ":" = false) :
    keyAndRest rt.toAgentRuntime text = none := by
  have hdrop : text.drop (text.takeWhile (isNameChar rt.toAgentRuntime)).length =
      text.dropWhile (isNameChar rt.toAgentRuntime) := by
    clear h
    induction text with
    | nil => rfl
    | cons c rest ih =>
      rw [List.takeWhile_cons, List.dropWhile_cons]
      split
      · exact ih
      · rfl
  rw [keyAndRest, hdrop, h, if_neg fun hand => Bool.false_ne_true hand.2]

/-- A text that begins with another character. -/
theorem startsWith_other {c d : CodePoint} (h : c ≠ d) (rest : Str) :
    startsWith (c :: rest) [d] = false := by
  show (d == c && _) = false
  rw [beq_false_of_ne (Ne.symm h), Bool.false_and]

theorem startsWith_colon_eq_false {s : Str} (h : codePoint ':' ∉ s) : startsWith s ":" = false := by
  rw [← Bool.not_eq_true]
  intro hstart
  obtain ⟨rest, rfl⟩ := List.isPrefixOf_iff_prefix.mp hstart
  exact h List.mem_cons_self

/-- What begins with another sign has no key. -/
theorem keyAndRest_sign {c : CodePoint} (hname : isNameChar rt.toAgentRuntime c = false)
    (hc : c ≠ codePoint ':') (rest : Str) : keyAndRest rt.toAgentRuntime (c :: rest) = none := by
  refine keyAndRest_eq_none ?_
  rw [List.dropWhile_cons_of_neg (by rw [hname]; exact Bool.false_ne_true)]
  exact startsWith_other hc rest

theorem keyAndRest_token {t : Str} (h : Token t) : keyAndRest rt.toAgentRuntime t = none :=
  keyAndRest_eq_none (startsWith_colon_eq_false fun hc =>
    h.no_colon ((List.dropWhile_suffix _).subset hc))

/-- A dash and whitespace are no key. -/
theorem keyAndRest_dash {gap : Str} (hgap : IsBlank gap) (hne : gap ≠ []) (rest : Str) :
    keyAndRest rt.toAgentRuntime (codePoint '-' :: (gap ++ rest)) = none := by
  obtain ⟨c, gap, rfl⟩ := List.exists_cons_of_ne_nil hne
  have hdash : isNameChar rt.toAgentRuntime (codePoint '-') = true := by
    rw [isNameChar_ascii (by decide)]
    decide
  have hc := hgap c List.mem_cons_self
  refine keyAndRest_eq_none ?_
  rw [List.dropWhile_cons_of_pos hdash, List.cons_append,
    List.dropWhile_cons_of_neg (by rw [isNameChar_blank hc]; exact Bool.false_ne_true)]
  refine startsWith_other ?_ _
  rintro rfl
  revert hc
  decide

theorem behindDash_gap {gap t : Str} (hgap : IsBlank gap) (hhead : ∀ c ∈ t.head?, isSpace c = false) :
    behindDash (codePoint '-' :: (gap ++ t)) = t := by
  have hstart : startsWith (codePoint '-' :: (gap ++ t)) "-" = true :=
    List.isPrefixOf_iff_prefix.mpr ⟨gap ++ t, rfl⟩
  rw [behindDash, hstart, if_pos rfl]
  show (gap ++ t).dropWhile isSpace = t
  rw [List.dropWhile_append_of_pos hgap]
  cases t with
  | nil => rfl
  | cons c rest => exact List.dropWhile_cons_of_neg (by simp [hhead c rfl])

theorem KeyName.head_not_space {name : Str} (h : KeyName rt name) :
    ∀ c ∈ name.head?, isSpace c = false := fun c hc =>
  isNameChar_not_space (h.chars c (List.mem_of_mem_head? hc))

/-- A name does not begin with a dash. -/
theorem KeyName.no_dash {name : Str} (h : KeyName rt name) (rest : Str) :
    startsWith (name ++ rest) "-" = false := by
  obtain ⟨c, others, rfl⟩ := List.exists_cons_of_ne_nil h.ne_nil
  exact startsWith_other (h.head c rfl) (others ++ rest)

/-! ## Lines -/

/-- The line of a pair: a key, and a value behind whitespace. -/
inductive PairText (key value : Str) : Str → Prop
  | mk {gap t : Str} (hgap : IsBlank gap) (ht : Written value t) :
      PairText key value (key ++ codePoint ':' :: (gap ++ t))

/-- A dash with something behind it. -/
inductive Dashed (text : Str) : Str → Prop
  | mk {gap : Str} (hgap : IsBlank gap) (hne : gap ≠ []) : Dashed text (codePoint '-' :: (gap ++ text))

variable {key value text dashed : Str}

theorem PairText.head (h : PairText key value text) (hkey : KeyName rt key) :
    ∀ c ∈ text.head?, isSpace c = false := by
  cases h with
  | mk hgap ht =>
    obtain ⟨d, others, hd⟩ := List.exists_cons_of_ne_nil hkey.ne_nil
    intro c hc
    rw [hd] at hc
    exact hkey.head_not_space c (by rw [hd]; exact hc)

theorem includePair_pair (h : PairText key value text) (hkey : KeyName rt key) (hv : PlainValue value) :
    ∃ raw, includePair rt.toAgentRuntime text = some (key, raw) ∧ unquote raw = value := by
  cases h with
  | @mk gap t hgap ht =>
    have hplain := plainText_token hgap (ht.token hv)
    refine ⟨t, ?_, ?_⟩
    · rw [includePair, hkey.no_dash, if_neg Bool.false_ne_true, keyAndRest_key hkey, Option.bind_some]
      dsimp only
      rw [hplain]
      rfl
    · have hread := ht.unquote_eq hv (l := []) (r := []) nofun nofun
      rwa [List.nil_append, List.append_nil] at hread

theorem includePair_dashed (hdashed : Dashed text dashed) (hhead : ∀ c ∈ text.head?, isSpace c = false)
    (hplain : startsWith text "-" = false) :
    includePair rt.toAgentRuntime dashed = includePair rt.toAgentRuntime text := by
  cases hdashed with
  | @mk gap hgap hne =>
    have hstart : startsWith (codePoint '-' :: (gap ++ text)) "-" = true :=
      List.isPrefixOf_iff_prefix.mpr ⟨gap ++ text, rfl⟩
    rw [includePair, includePair, hstart, if_pos rfl, hplain, if_neg Bool.false_ne_true,
      keyAndRest_dash hgap hne, behindDash_gap hgap hhead]
    simp

/-- No line that begins with a dash is a key or a flow list. -/
theorem flowList_dashed (h : Dashed text dashed) : flowList rt.toAgentRuntime dashed = none := by
  cases h with
  | mk hgap hne => rw [flowList, keyAndRest_dash hgap hne, Option.bind_none]

theorem blockKey_dashed (h : Dashed text dashed) : blockKey rt.toAgentRuntime dashed = none := by
  cases h with
  | mk hgap hne => rw [blockKey, keyAndRest_dash hgap hne, Option.bind_none]

theorem flowList_pair (h : PairText key value text) (hkey : KeyName rt key) (hv : PlainValue value) :
    flowList rt.toAgentRuntime text = none := by
  cases h with
  | @mk gap t hgap ht =>
    have htoken := ht.token hv
    rw [flowList, keyAndRest_key hkey, Option.bind_some]
    dsimp only
    rw [dropWhile_token hgap htoken]
    obtain ⟨c, rest, rfl⟩ := List.exists_cons_of_ne_nil htoken.ne_nil
    dsimp only
    rw [if_neg]
    rintro rfl
    exact htoken.clean _ List.mem_cons_self (by decide)

theorem blockKey_pair (h : PairText key value text) (hkey : KeyName rt key) (hv : PlainValue value) :
    blockKey rt.toAgentRuntime text = none := by
  cases h with
  | @mk gap t hgap ht =>
    have htoken := ht.token hv
    rw [blockKey, keyAndRest_key hkey, Option.bind_some]
    dsimp only
    have hends : endsHere (gap ++ t) = false := by
      have hrest := dropWhile_token hgap htoken
      rw [endsHere, hrest]
      obtain ⟨c, rest, rfl⟩ := List.exists_cons_of_ne_nil htoken.ne_nil
      dsimp only
      rw [beq_eq_false_iff_ne]
      rintro rfl
      exact htoken.no_comment List.mem_cons_self
    rw [hends, if_neg Bool.false_ne_true]

theorem blockItem_dashed {t : Str} (h : Dashed t dashed) (ht : Token t) :
    blockItem dashed = some t := by
  cases h with
  | @mk gap hgap hne =>
    have hstart : startsWith (codePoint '-' :: (gap ++ t)) "-" = true :=
      List.isPrefixOf_iff_prefix.mpr ⟨gap ++ t, rfl⟩
    rw [blockItem, hstart, if_pos rfl]
    exact plainText_token hgap ht

theorem blockKey_key (h : KeyName rt key) :
    blockKey rt.toAgentRuntime (key ++ lit ":") = some key := by
  show blockKey rt.toAgentRuntime (key ++ codePoint ':' :: []) = some key
  rw [blockKey, keyAndRest_key h]
  rfl

theorem flowList_key (h : KeyName rt key) :
    flowList rt.toAgentRuntime (key ++ lit ":") = none := by
  show flowList rt.toAgentRuntime (key ++ codePoint ':' :: []) = none
  rw [flowList, keyAndRest_key h]
  rfl

/-- The text before the last bracket. -/
theorem upToBracket_last (inside : Str) : upToBracket (inside ++ [codePoint ']']) = some inside := by
  induction inside with
  | nil => rfl
  | cons c rest ih => rw [List.cons_append, upToBracket, ih]

/-- Without a bracket there is no such text. -/
theorem upToBracket_eq_none {s : Str} (h : codePoint ']' ∉ s) : upToBracket s = none := by
  induction s with
  | nil => rfl
  | cons c rest ih =>
    rw [List.mem_cons, not_or] at h
    rw [upToBracket, ih h.2]
    exact if_neg fun hand => h.1 hand.1.symm

/-- A flow list has the key that it stands behind. -/
theorem flowList_name (h : KeyName rt key) {rest : Str} {item : Str × Str}
    (hitem : flowList rt.toAgentRuntime (key ++ codePoint ':' :: rest) = some item) : item.1 = key := by
  rw [flowList, keyAndRest_key h, Option.bind_some] at hitem
  dsimp only at hitem
  split at hitem
  · split at hitem
    · obtain ⟨inside, -, rfl⟩ := Option.map_eq_some_iff.mp hitem
      rfl
    · cases hitem
  · cases hitem

/-- A flow list that goes on on the next line. -/
theorem flowList_wrapped (h : KeyName rt key) {gap : Str} (hgap : IsBlank gap) {start : Str}
    (hstart : codePoint ']' ∉ start) :
    flowList rt.toAgentRuntime (key ++ codePoint ':' :: (gap ++ codePoint '[' :: start)) = none := by
  have hbracket : isSpace (codePoint '[') = false := by decide
  rw [flowList, keyAndRest_key h, Option.bind_some]
  dsimp only
  rw [List.dropWhile_append_of_pos hgap, List.dropWhile_cons_of_neg (by simp [hbracket])]
  dsimp only
  rw [if_pos rfl, upToBracket_eq_none hstart]
  rfl

theorem flowList_flow (h : KeyName rt key) {gap : Str} (hgap : IsBlank gap) (inside : Str) :
    flowList rt.toAgentRuntime
      (key ++ codePoint ':' :: (gap ++ codePoint '[' :: (inside ++ [codePoint ']']))) =
        some (key, inside) := by
  have hbracket : isSpace (codePoint '[') = false := by decide
  rw [flowList, keyAndRest_key h, Option.bind_some]
  dsimp only
  rw [List.dropWhile_append_of_pos hgap, List.dropWhile_cons_of_neg (by simp [hbracket])]
  dsimp only
  rw [if_pos rfl, upToBracket_last]
  rfl

theorem blockKey_flow (h : KeyName rt key) {gap : Str} (hgap : IsBlank gap) (inside : Str) :
    blockKey rt.toAgentRuntime (key ++ codePoint ':' :: (gap ++ codePoint '[' :: inside)) = none := by
  have hbracket : isSpace (codePoint '[') = false := by decide
  have hends : endsHere (gap ++ codePoint '[' :: inside) = false := by
    rw [endsHere, List.dropWhile_append_of_pos hgap,
      List.dropWhile_cons_of_neg (by simp [hbracket])]
    show (codePoint '[' == codePoint '#') = false
    decide
  rw [blockKey, keyAndRest_key h, Option.bind_some]
  dsimp only
  rw [hends, if_neg Bool.false_ne_true]

end Keys

/-! ## Flow lists -/

/-- A value of a flow list, with whitespace around it. -/
inductive FlowPiece (v : Str) : Str → Prop
  | mk {l t r : Str} (hl : IsBlank l) (ht : Written v t) (hr : IsBlank r) : FlowPiece v (l ++ t ++ r)

/-- The values of a flow list: nothing, or pieces between commas, with a comma behind the last
one or none. -/
inductive FlowValues : List Str → Str → Prop
  | none {inside : Str} (h : IsBlank inside) : FlowValues [] inside
  | some {values pieces : List Str} (hne : values ≠ []) (h : List.Forall₂ FlowPiece values pieces) :
      FlowValues values (join "," pieces)
  | trailing {values pieces : List Str} {gap : Str} (hgap : IsBlank gap)
      (h : List.Forall₂ FlowPiece values pieces) : FlowValues values (join "," (pieces ++ [gap]))

theorem FlowPiece.unquote_eq {v piece : Str} (h : FlowPiece v piece) (hv : PlainValue v) :
    unquote piece = v := by
  cases h with
  | mk hl ht hr => exact ht.unquote_eq hv hl hr

/-- A sign that is no whitespace. -/
theorem IsBlank.no_sign {gap : Str} (h : IsBlank gap) {c : CodePoint} (hc : isSpace c = false) :
    c ∉ gap := fun hin => by
  rw [h c hin] at hc
  cases hc

/-- A sign that no plain value has is not in a piece. -/
theorem FlowPiece.no_sign {v piece : Str} (h : FlowPiece v piece) (hv : PlainValue v) {c : CodePoint}
    (hc : isSpace c = false ∧ c ∈ valueSigns) : c ∉ piece := by
  cases h with
  | mk hl ht hr =>
    intro hin
    rcases List.mem_append.mp hin with hin | hin
    · rcases List.mem_append.mp hin with hin | hin
      · exact hl.no_sign hc.1 hin
      · exact (ht.token hv).clean _ hin hc.2
    · exact hr.no_sign hc.1 hin

theorem IsBlank.unquote_eq {gap : Str} (h : IsBlank gap) : unquote gap = [] := by
  rw [unquote, (strip_eq_nil_iff gap).mpr h]
  rfl

/-- The pieces of a flow list are read one by one. -/
theorem unquote_pieces {values pieces : List Str} (h : List.Forall₂ FlowPiece values pieces)
    (hplain : ∀ v ∈ values, PlainValue v) :
    pieces.map unquote = values ∧ ∀ piece ∈ pieces, codePoint ',' ∉ piece := by
  induction h with
  | nil => exact ⟨rfl, nofun⟩
  | @cons v piece values pieces hpiece _ ih =>
    have hv := hplain v List.mem_cons_self
    obtain ⟨hrest, hcommas⟩ := ih fun w hw => hplain w (List.mem_cons_of_mem _ hw)
    refine ⟨?_, List.forall_mem_cons.mpr ⟨hpiece.no_sign hv (by decide), hcommas⟩⟩
    rw [List.map_cons, hpiece.unquote_eq hv, hrest]

/-- The text of a flow list has no colon. -/
theorem FlowValues.no_colon {values : List Str} {inside : Str} (h : FlowValues values inside)
    (hplain : ∀ v ∈ values, PlainValue v) : codePoint ':' ∉ inside := by
  have hpiece : ∀ {pieces : List Str} {piece : Str}, List.Forall₂ FlowPiece values pieces →
      piece ∈ pieces → codePoint ':' ∉ piece := by
    intro pieces piece hpieces hin
    obtain ⟨v, hv, h⟩ := exists_of_forall₂ hpieces hin
    exact h.no_sign (hplain v hv) (by decide)
  have hcomma : codePoint ':' ∉ lit "," := by decide
  cases h with
  | none h => exact h.no_sign (by decide)
  | some hne hpieces =>
    intro hc
    rcases mem_join hc with hc | ⟨piece, hin, hc⟩
    · exact hcomma hc
    · exact hpiece hpieces hin hc
  | trailing hgap hpieces =>
    intro hc
    rcases mem_join hc with hc | ⟨piece, hin, hc⟩
    · exact hcomma hc
    · rcases List.mem_append.mp hin with hin | hin
      · exact hpiece hpieces hin hc
      · exact hgap.no_sign (by decide) (List.mem_singleton.mp hin ▸ hc)

theorem splitOn_join {pieces : List Str} (hne : pieces ≠ [])
    (h : ∀ piece ∈ pieces, codePoint ',' ∉ piece) :
    (join "," pieces).splitOn (codePoint ',') = pieces := by
  rw [join_eq_intercalate]
  exact List.splitOn_intercalate _ h hne

/-- The scanner reads the values of a flow list as they are. -/
theorem FlowValues.read {values : List Str} {inside : Str} (h : FlowValues values inside)
    (hplain : ∀ v ∈ values, PlainValue v) :
    ((inside.splitOn (codePoint ',')).map unquote).filter countsAsValue = values := by
  have hcounts : values.filter countsAsValue = values :=
    List.filter_eq_self.mpr fun v hv => (hplain v hv).counts
  cases h with
  | none h =>
    rw [List.splitOn_eq_singleton (h.no_sign (by decide)), List.map_singleton, h.unquote_eq]
    rfl
  | @some _ pieces hne hpieces =>
    obtain ⟨hread, hcommas⟩ := unquote_pieces hpieces hplain
    have hpiecesNe : pieces ≠ [] := by
      rintro rfl
      exact hne hread.symm
    rw [splitOn_join hpiecesNe hcommas, hread, hcounts]
  | @trailing _ pieces gap hgap hpieces =>
    obtain ⟨hread, hcommas⟩ := unquote_pieces hpieces hplain
    have hall : ∀ piece ∈ pieces ++ [gap], codePoint ',' ∉ piece := by
      intro piece hpiece
      rcases List.mem_append.mp hpiece with hpiece | hpiece
      · exact hcommas piece hpiece
      · exact List.mem_singleton.mp hpiece ▸ hgap.no_sign (by decide)
    rw [splitOn_join (List.append_ne_nil_of_right_ne_nil _ (List.cons_ne_nil _ _)) hall, List.map_append,
      hread, List.map_singleton, hgap.unquote_eq, List.filter_append, hcounts]
    exact List.append_nil values

end DevRepro.Project
