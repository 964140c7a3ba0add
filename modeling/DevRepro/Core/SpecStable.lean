import DevRepro.Core.SpecText

/-!
# Clauses that are read as themselves

The clauses that `_partial_clauses` makes have a third number or a version that it takes
as it stands, so that printing and reading them changes nothing.
-/

namespace DevRepro.Core

open DevRepro.Python DevRepro.Lib

variable {limits : Limits}

/-! ## The text of a version -/

/-- The characters of a version. -/
def isVersionChar (c : CodePoint) : Bool :=
  (digitValue? c).isSome || isTagChar c || c = codePoint '+'

theorem isTagStart_val {c : CodePoint} (h : isTagStart c = true) :
    0x30 ≤ c.val ∧ c.val ≤ 0x7A ∧ c.val ≠ 0x7C ∧ c.val ≠ 0x2C := by
  simp only [isTagStart, Bool.or_eq_true, Bool.and_eq_true, decide_eq_true_eq, Fin.le_def] at h
  simp only [codePoint, Char.reduceToNat] at h
  omega

theorem isVersionChar_spec {c : CodePoint} (h : isVersionChar c = true) :
    isSpace c = false ∧ c ≠ codePoint '|' ∧ c ≠ codePoint ',' ∧ c ≠ codePoint '\n' := by
  unfold isVersionChar isTagChar at h
  simp only [Bool.or_eq_true, decide_eq_true_eq] at h
  rcases h with (hd | (hstart | rfl) | rfl) | rfl
  · exact ⟨digit_not_space hd, digit_ne hd (by decide), digit_ne hd (by decide),
      digit_ne hd (by decide)⟩
  · obtain ⟨hlow, hhigh, hbar, hcomma⟩ := isTagStart_val hstart
    refine ⟨?_, fun heq => ?_, fun heq => ?_, fun heq => ?_⟩
    · simp only [isSpace, Bool.or_eq_false_iff, Bool.and_eq_false_iff, decide_eq_false_iff_not,
        beq_eq_false_iff_ne]
      omega
    · exact hbar (by rw [heq]; rfl)
    · exact hcomma (by rw [heq]; rfl)
    · rw [heq] at hlow
      exact absurd hlow (by decide)
  all_goals decide

theorem isNums_dotted {s : Str} (h : isNums s = true) : ∃ d : Dotted, d.text = s := by
  unfold isNums at h
  rw [List.all_eq_true] at h
  refine ⟨⟨s.splitOn (codePoint '.'), List.splitOn_ne_nil _ _, fun part hpart => ?_⟩, ?_⟩
  · have hone := h part hpart
    rw [Bool.and_eq_true, List.all_eq_true] at hone
    exact ⟨by simpa using hone.1, hone.2⟩
  · rw [Dotted.text, join_eq_intercalate]
    exact List.intercalate_splitOn _

theorem restOf_chars {s : Str} (h : (restOf s).isSome = true) :
    ∀ c ∈ s, isVersionChar c = true := by
  have htag : ∀ {t : Str}, (tagOf t).isSome = true → ∀ c ∈ t, isVersionChar c = true := by
    intro t ht c hc
    cases t with
    | nil => cases hc
    | cons d t =>
      rw [tagOf] at ht
      split_ifs at ht with hall
      · rw [Bool.and_eq_true, List.all_eq_true] at hall
        have hchar : isTagChar c = true := by
          rcases List.mem_cons.mp hc with rfl | hc
          · simp [isTagChar, hall.1]
          · exact hall.2 c hc
        simp [isVersionChar, hchar]
      · cases ht
  cases s with
  | nil => simp
  | cons c s =>
    rw [restOf] at h
    split_ifs at h with hsep
    · intro d hd
      rcases List.mem_cons.mp hd with rfl | hd
      · rcases hsep with rfl | rfl | rfl <;> decide
      · exact htag h d hd
    · exact htag h

/-- What is read as a version is the version of a clause, and has no bar or comma. -/
theorem parsed_text {raw : Str} (hstrip : strip raw = raw)
    (h : (parseVersion limits raw).isSome = true) :
    Plain raw ∧ ∀ c ∈ raw, isVersionChar c = true := by
  obtain ⟨nums, behind, hbody, hnums, hbehind⟩ := parseVersion_split h
  obtain ⟨d, rfl⟩ := isNums_dotted hnums
  have hchars : ∀ c ∈ versionBody raw, isVersionChar c = true := by
    intro c hc
    rw [hbody] at hc
    rcases List.mem_append.mp hc with hc | hc
    · rcases d.mem_text hc with rfl | hdigit
      · decide
      · simp [isVersionChar, hdigit]
    · exact restOf_chars hbehind c hc
  have hraw : ∀ c ∈ raw, isVersionChar c = true := by
    intro c hc
    by_cases hv : raw.head? = some (codePoint 'v')
    · cases raw with
      | nil => cases hc
      | cons e rest =>
        obtain rfl := Option.some_inj.mp hv
        rcases List.mem_cons.mp hc with rfl | hc
        · decide
        · refine hchars c ?_
          rw [versionBody, hstrip]
          exact hc
    · refine hchars c ?_
      rw [versionBody, hstrip, if_neg hv]
      exact hc
  refine ⟨⟨?_, fun hline => (isVersionChar_spec (hraw _ hline)).2.2.2 rfl⟩, hraw⟩
  obtain ⟨c, rest, htext, hc⟩ := d.text_cons
  have hops : ∀ e : CodePoint, (digitValue? e).isSome = true ∨ e = codePoint 'v' →
      e ∉ [codePoint '*', codePoint '>', codePoint '<', codePoint '!', codePoint '='] := by
    rintro e (he | rfl)
    · simp only [List.mem_cons, List.not_mem_nil, or_false, not_or]
      exact ⟨digit_ne he (by decide), digit_ne he (by decide), digit_ne he (by decide),
        digit_ne he (by decide), digit_ne he (by decide)⟩
    · decide
  cases hcons : raw with
  | nil =>
    rw [hcons] at hbody
    rw [htext] at hbody
    cases hbody
  | cons e others =>
    refine ⟨e, others, rfl, (isVersionChar_spec (hraw e (hcons ▸ List.mem_cons_self))).1, hops e ?_⟩
    by_cases hv : e = codePoint 'v'
    · exact Or.inr hv
    · left
      have hhead : (versionBody raw).head? = some e := by
        rw [versionBody, hstrip, hcons, if_neg (by simpa using hv)]
        rfl
      rw [hbody, htext] at hhead
      obtain rfl : c = e := by simpa using hhead
      exact hc

/-! ## Clauses that are read as themselves -/

theorem clauseTextParts_op {written s : Str} (h : written ∈ opTexts.map (·.1)) (hs : Plain s) :
    clauseTextParts (written ++ s) = some (written, s) := by
  have hversion := hs.clauseVersion
  obtain ⟨⟨c, rest, rfl, -, hc⟩, -⟩ := hs
  have heq : ¬codePoint '=' = c := by
    rintro rfl
    exact hc (by decide)
  simp only [opTexts, List.map_cons, List.map_nil, List.mem_cons, List.not_mem_nil, or_false] at h
  unfold clauseTextParts
  rcases h with rfl | rfl | rfl | rfl | rfl | rfl | rfl | rfl <;>
  simp [opTexts, lit, List.cons_prefix_cons, codePoint_inj, heq, hversion]

/-- A clause that is read from its own text, and whose text does not end a clause early. -/
structure Stable (limits : Limits) (c : SpecClause) : Prop where
  reads : parseSpecClause limits (c.op ++ c.raw) = some [c]
  chars : ∀ d ∈ c.op ++ c.raw, d ≠ codePoint '|' ∧ d ≠ codePoint ','

theorem stable_of_parse {op raw : Str} {version : Version} (hop : op ∈ opTexts.map (·.1))
    (hstrip : strip raw = raw) (hparse : parseVersion limits raw = some version)
    (h : partialSpecClauses limits op raw = some [⟨op, version, raw⟩]) :
    Stable limits ⟨op, version, raw⟩ := by
  obtain ⟨hplain, hraw⟩ := parsed_text hstrip (Option.isSome_iff_exists.mpr ⟨version, hparse⟩)
  have hopchars := opText_chars (List.mem_cons_of_mem [] hop)
  have hspace : strip (op ++ raw) = op ++ raw := by
    refine strip_eq_self fun c hc => ?_
    rcases List.mem_append.mp hc with hc | hc
    · exact (hopchars c hc).1
    · exact (isVersionChar_spec (hraw c hc)).1
  have hlong : ∀ op ∈ opTexts.map (·.1), op ≠ [] := by decide
  constructor
  · have hparts := clauseTextParts_op hop hplain
    have hstar : op ++ raw ≠ lit "*" := by
      intro heq
      obtain ⟨c, rest, rfl, -⟩ := hplain.head
      have hlen := congrArg List.length heq
      have hpos := List.length_pos_of_ne_nil (hlong op hop)
      rw [List.length_append, List.length_cons] at hlen
      have hone : (lit "*").length = 1 := rfl
      omega
    unfold parseSpecClause
    dsimp only
    rw [hspace, if_neg (by simp [hlong op hop]), if_neg hstar, hparts]
    exact h
  · intro c hc
    rcases List.mem_append.mp hc with hc | hc
    · exact (hopchars c hc).2
    · obtain ⟨-, hbar, hcomma, -⟩ := isVersionChar_spec (hraw c hc)
      exact ⟨hbar, hcomma⟩

theorem specClause_eq {op text : Str} {clauses : List SpecClause}
    (h : specClause limits op text = some clauses) :
    ∃ version, parseVersion limits text = some version ∧ clauses = [⟨op, version, strip text⟩] := by
  obtain ⟨version, hparse, rfl⟩ := Option.map_eq_some_iff.mp h
  exact ⟨version, hparse, rfl⟩

/-- A clause that takes its version as it stands. -/
theorem stable_of_exact {op text : Str} {clauses : List SpecClause} (hop : op ∈ opTexts.map (·.1))
    (hstrip : strip text = text) (hexact : specClause limits op text = some clauses)
    (hagain : partialSpecClauses limits op text = some clauses) :
    ∀ c ∈ clauses, Stable limits c ∧ c.raw = text := by
  obtain ⟨version, hparse, rfl⟩ := specClause_eq hexact
  rw [hstrip] at hagain ⊢
  intro c hc
  obtain rfl := List.mem_singleton.mp hc
  exact ⟨stable_of_parse hop hstrip hparse hagain, rfl⟩

theorem strip_three {a b c : Str} (ha : IsNumber a) (hb : IsNumber b) (hc : IsNumber c) :
    strip (a ++ lit "." ++ b ++ lit "." ++ c) = a ++ lit "." ++ b ++ lit "." ++ c := by
  refine strip_eq_self fun d hd => ?_
  have hdot : ∀ e ∈ lit ".", isSpace e = false := by
    intro e he
    obtain rfl : e = codePoint '.' := by simpa [lit] using he
    decide
  simp only [List.mem_append] at hd
  rcases hd with (((hd | hd) | hd) | hd) | hd
  · exact ha.not_space d hd
  · exact hdot d hd
  · exact hb.not_space d hd
  · exact hdot d hd
  · exact hc.not_space d hd

/-- Three numbers that are short enough are one clause, behind every comparison. -/
theorem specClause_three {a b c : Str} (op : Str) (ha : IsNumber a) (hb : IsNumber b) (hc : IsNumber c)
    (hfits : a.length ≤ limits.intDigits ∧ b.length ≤ limits.intDigits ∧ c.length ≤ limits.intDigits) :
    specClause limits op (a ++ lit "." ++ b ++ lit "." ++ c) =
      some [⟨op, release [numberOf a, numberOf b, numberOf c], a ++ lit "." ++ b ++ lit "." ++ c⟩] := by
  rw [specClause, parse_three limits ha hb hc, if_pos hfits, strip_three ha hb hc]
  rfl

/-- Three numbers are taken as they stand behind every comparison. -/
theorem stable_three {op a b c : Str} {clauses : List SpecClause} (hop : op ∈ opTexts.map (·.1))
    (ha : IsNumber a) (hb : IsNumber b) (hc : IsNumber c)
    (h : specClause limits op (a ++ lit "." ++ b ++ lit "." ++ c) = some clauses) :
    ∀ d ∈ clauses, Stable limits d := by
  have htext : a ++ lit "." ++ b ++ lit "." ++ c =
      a ++ codePoint '.' :: (b ++ codePoint '.' :: (c ++ [])) := by
    simp [lit]
  have hthree := @threeParts_three a b c [] ha hb hc (by simp)
  rw [← htext] at hthree
  obtain ⟨version, hparse, -⟩ := specClause_eq h
  have hlen : a.length ≤ limits.intDigits := by
    rw [parse_three limits ha hb hc] at hparse
    split_ifs at hparse with hlens
    exact hlens.1
  have hne : ∀ op ∈ opTexts.map (·.1), op ≠ [] := by decide
  have hagain : partialSpecClauses limits op (a ++ lit "." ++ b ++ lit "." ++ c) = some clauses := by
    have hall : ((some b).isSome && (some c).isSome) = true := rfl
    rw [partialSpecClauses_eq, hthree, if_neg ha.1, digitsOf_some ha hlen, Option.bind_some,
      if_pos hall, if_neg (hne op hop)]
    exact h
  exact fun d hd => (stable_of_exact hop (strip_three ha hb hc) h hagain d hd).1

theorem stable_lower {major : Nat} {minor : Option Str} {clauses : List SpecClause}
    (hminor : ∀ b ∈ minor, IsNumber b) (h : lowerClauses limits major minor = some clauses) :
    ∀ c ∈ clauses, Stable limits c := by
  unfold lowerClauses numberText at h
  obtain ⟨text, htext, h⟩ := Option.bind_eq_some_iff.mp h
  split_ifs at htext
  obtain rfl := Option.some_inj.mp htext
  have hb : IsNumber (minor.getD (lit "0")) := by
    cases minor with
    | none => exact zero_isNumber
    | some b => exact hminor b rfl
  have hwritten : natStr major ++ lit "." ++ minor.getD (lit "0") ++ lit ".0" =
      natStr major ++ lit "." ++ minor.getD (lit "0") ++ lit "." ++ lit "0" := by
    simp [lit]
  rw [hwritten] at h
  exact stable_three (by decide) (natStr_isNumber major) hb zero_isNumber h

theorem stable_upper {major : Nat} {clauses : List SpecClause}
    (h : upperClauses limits major = some clauses) : ∀ c ∈ clauses, Stable limits c := by
  unfold upperClauses numberText at h
  obtain ⟨text, htext, h⟩ := Option.bind_eq_some_iff.mp h
  split_ifs at htext
  obtain rfl := Option.some_inj.mp htext
  have hwritten : natStr (major + 1) ++ lit ".0.0" =
      natStr (major + 1) ++ lit "." ++ lit "0" ++ lit "." ++ lit "0" := by
    simp [lit]
  rw [hwritten] at h
  exact stable_three (by decide) (natStr_isNumber _) zero_isNumber zero_isNumber h

theorem lower_op {major : Nat} {minor : Option Str} {clauses : List SpecClause}
    (h : lowerClauses limits major minor = some clauses) :
    clauses ≠ [] ∧ ∀ c ∈ clauses, c.op = lit ">=" := by
  obtain ⟨text, -, h⟩ := Option.bind_eq_some_iff.mp h
  obtain ⟨version, -, rfl⟩ := specClause_eq h
  exact ⟨List.cons_ne_nil _ _, by simp⟩

theorem upper_op {major : Nat} {clauses : List SpecClause}
    (h : upperClauses limits major = some clauses) :
    clauses ≠ [] ∧ ∀ c ∈ clauses, c.op = lit "<" := by
  obtain ⟨text, -, h⟩ := Option.bind_eq_some_iff.mp h
  obtain ⟨version, -, rfl⟩ := specClause_eq h
  exact ⟨List.cons_ne_nil _ _, by simp⟩

theorem minor_isNumber (text : Str) : ∀ b ∈ (threeParts text).2.1, IsNumber b := by
  intro b hb
  rcases dottedDigits_cases (leadingDigits text).2 with h | ⟨c, behind, hc, -, h, -⟩
  · have hnone : (threeParts text).2.1 = none := by
      unfold threeParts
      simp only [h]
    rw [hnone] at hb
    cases hb
  · have hsome : (threeParts text).2.1 = some c := by
      unfold threeParts
      simp only [h]
    rw [hsome] at hb
    obtain rfl := Option.some_inj.mp hb
    exact hc

/-- Clauses that are printed and read without a change, none of them the bare `*`. -/
structure Kept (limits : Limits) (clauses : List SpecClause) : Prop where
  ne_nil : clauses ≠ []
  stable : ∀ c ∈ clauses, Stable limits c
  no_star : bareStar ∉ clauses

theorem kept_of_exact {op text : Str} {clauses : List SpecClause} (hop : op ∈ opTexts.map (·.1))
    (hstrip : strip text = text) (hexact : specClause limits op text = some clauses)
    (hagain : partialSpecClauses limits op text = some clauses)
    (hstar : op = lit "*" → text ≠ lit "0") : Kept limits clauses := by
  have hall := stable_of_exact hop hstrip hexact hagain
  obtain ⟨version, -, rfl⟩ := specClause_eq hexact
  refine ⟨List.cons_ne_nil _ _, fun c hc => (hall c hc).1, fun hmem => ?_⟩
  have hraw := (hall bareStar hmem).2
  have hop : op = lit "*" := by
    have := congrArg SpecClause.op (List.mem_singleton.mp hmem)
    exact this.symm
  exact hstar hop hraw.symm

/-- Every clause that `_partial_clauses` makes is kept. -/
theorem kept_partial {op text : Str} {clauses : List SpecClause} (hop : op ∈ operatorTexts)
    (hstrip : strip text = text) (h : partialSpecClauses limits op text = some clauses) :
    Kept limits clauses := by
  have hequal : (if op = [] then lit "==" else op) ∈ opTexts.map (·.1) := by
    have hall : ∀ op ∈ operatorTexts, (if op = [] then lit "==" else op) ∈ opTexts.map (·.1) := by
      decide
    exact hall op hop
  have hne : (if op = [] then lit "==" else op) ≠ [] := by
    have hall : ∀ op ∈ opTexts.map (·.1), op ≠ [] := by decide
    exact hall _ hequal
  have hzero : threeParts (lit "0") = (lit "0", none, none) := threeParts_one zero_isNumber
  have hpartial := h
  rw [partialSpecClauses_eq] at h
  by_cases hmajor : (threeParts text).1 = []
  · rw [if_pos hmajor] at h
    refine kept_of_exact hequal hstrip h ?_ fun _ heq => ?_
    · rw [partialSpecClauses_eq, if_pos hmajor, if_neg hne]
      exact h
    · rw [heq, hzero] at hmajor
      exact absurd hmajor (by decide)
  · rw [if_neg hmajor] at h
    obtain ⟨major, hdigits, h⟩ := Option.bind_eq_some_iff.mp h
    by_cases hthree : ((threeParts text).2.1.isSome && (threeParts text).2.2.isSome) = true
    · rw [if_pos hthree] at h
      refine kept_of_exact hequal hstrip h ?_ fun _ heq => ?_
      · rw [partialSpecClauses_eq, if_neg hmajor, hdigits, Option.bind_some, if_pos hthree, if_neg hne]
        exact h
      · rw [heq, hzero] at hthree
        cases hthree
    · rw [if_neg hthree] at h
      -- a comparison is there wherever the version is taken as it stands
      have hexact : op ≠ [] → op ≠ lit "*" → specClause limits op text = some clauses →
          Kept limits clauses := by
        intro hop hstar hexact
        rw [if_neg hop] at hequal
        exact kept_of_exact hequal hstrip hexact hpartial fun heq => absurd heq hstar
      by_cases hless : op ∈ [lit "<", lit "<="]
      · rw [if_pos hless] at h
        split_ifs at h
        · obtain ⟨hnil, hops⟩ := upper_op h
          refine ⟨hnil, stable_upper h, fun hmem => ?_⟩
          exact absurd (hops _ hmem) (by decide)
        · refine hexact (fun heq => ?_) (fun heq => ?_) h
          · rw [heq] at hless
            exact absurd hless (by decide)
          · rw [heq] at hless
            exact absurd hless (by decide)
      · rw [if_neg hless] at h
        split_ifs at h with hmore hseries
        · obtain ⟨hnil, hops⟩ := lower_op h
          refine ⟨hnil, stable_lower (minor_isNumber text) h, fun hmem => ?_⟩
          exact absurd (hops _ hmem) (by decide)
        · obtain ⟨low, hlow, h⟩ := Option.bind_eq_some_iff.mp h
          obtain ⟨high, hhigh, h⟩ := Option.bind_eq_some_iff.mp h
          obtain rfl := Option.some_inj.mp h
          obtain ⟨hnil, hlowops⟩ := lower_op hlow
          obtain ⟨-, hhighops⟩ := upper_op hhigh
          refine ⟨List.append_ne_nil_of_left_ne_nil hnil _, fun c hc => ?_, fun hmem => ?_⟩
          · rcases List.mem_append.mp hc with hc | hc
            · exact stable_lower (minor_isNumber text) hlow c hc
            · exact stable_upper hhigh c hc
          · rcases List.mem_append.mp hmem with hmem | hmem
            · exact absurd (hlowops _ hmem) (by decide)
            · exact absurd (hhighops _ hmem) (by decide)
        · refine hexact (fun heq => hseries ?_) (fun heq => hseries ?_) h
          · rw [heq]
            decide
          · rw [heq]
            decide

end DevRepro.Core
