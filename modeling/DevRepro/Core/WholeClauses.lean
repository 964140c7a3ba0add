import DevRepro.Core.Bounds

/-!
# Clauses that are read to their end

`_partial_clauses` looks at the first numbers of a clause alone.  Where it goes on with
these, what stands behind them is not looked at.
-/

namespace DevRepro.Core

open DevRepro.Python DevRepro.Lib

variable {limits : Limits}

/-! ## Whole clauses -/

/-- A component of a version or of its wildcard form. -/
def isWild (part : Str) : Bool :=
  decide (part ∈ [lit "x", lit "X", lit "*"]) ||
    part != [] && part.all fun c => (digitValue? c).isSome

/-- Components between dots. -/
def isWildNums (s : Str) : Bool := (s.splitOn (codePoint '.')).all isWild

/-- The text of a version behind its `v`. -/
def versionBody (raw : Str) : Str :=
  let text := strip raw
  if text.head? = some (codePoint 'v') then text.tail else text

/-- A version or its wildcard form, with nothing behind the tag. -/
def isWholeVersion (raw : Str) : Bool :=
  let body := versionBody raw
  (List.range (body.length + 1)).any fun n =>
    isWildNums (body.take n) && (restOf (body.drop n)).isSome

/-- An optional comparison and a version or its wildcard form. -/
def isWholeClause (text : Str) : Bool :=
  match clauseParts text with
  | some (_, version) => isWholeVersion version
  | none => false

/-- The clauses between the commas of each alternative. -/
def clauseTexts (spec : Str) : List Str :=
  (splitGroups spec).flatMap fun raw => (raw.splitOn (codePoint ',')).map strip

/-- Every clause of a range is a whole one, but for the blank ones. -/
def AllWhole (spec : Str) : Prop :=
  ∀ text ∈ clauseTexts spec, text ≠ [] → isWholeClause text = true

/-! ## What is read of a clause -/

/-- The first number of a version, and the second one if it is there. -/
def readPart (text : Str) : Str :=
  let (major, behind) := leadingDigits text
  major ++ match (dottedDigits behind).1 with
    | some minor => codePoint '.' :: minor
    | none => []

/-- What stands behind them. -/
def behindPart (text : Str) : Str := (dottedDigits (leadingDigits text).2).2

/-- The clauses of which nothing but the first numbers is used. -/
def readsPrefix (op : Option Op) (text : Str) : Bool :=
  (threeParts text).1 != [] && !((threeParts text).2.1.isSome && (threeParts text).2.2.isSome) &&
    match op with
    | some .lt | some .le => (threeParts text).2.1.isNone
    | some .ne => false
    | _ => true

def isTagChar (c : CodePoint) : Bool := isTagStart c || c = codePoint '.' || c = codePoint '-'

/-- More components behind the ones that are read. -/
def moreWild : Str → Bool
  | [] => true
  | c :: rest => decide (c = codePoint '.') && isWildNums rest

/-- Nothing but more components and a tag stands behind what is read, or nothing but
characters of a tag that the last of several digits can begin. -/
def harmlessRest (text : Str) : Bool :=
  ((List.range ((behindPart text).length + 1)).any fun n =>
      moreWild ((behindPart text).take n) && (restOf ((behindPart text).drop n)).isSome) ||
    decide (2 ≤ (readPart text).length) && (readPart text).getLast?.any isTagStart &&
      (behindPart text).all isTagChar

/-- A clause of which only the first numbers are used ends with them, or harmlessly. -/
def ReadToEnd (text : Str) : Prop :=
  ∀ op version, clauseParts text = some (op, version) → readsPrefix op version = true →
    harmlessRest version = true

instance (text : Str) : Decidable (ReadToEnd text) :=
  decidable_of_iff
    (∀ parts ∈ clauseParts text, readsPrefix parts.1 parts.2 = true → harmlessRest parts.2 = true)
    ⟨fun h op version hparts => h (op, version) hparts, fun h parts hparts => h parts.1 parts.2 hparts⟩

/-! ## Components -/

theorem isWild_number {a : Str} (ha : IsNumber a) : isWild a = true := by
  unfold isWild
  rw [Bool.or_eq_true, Bool.and_eq_true, List.all_eq_true]
  exact Or.inr ⟨by simpa using ha.1, ha.2⟩

theorem isWildNums_of_isNums {s : Str} (h : isNums s = true) : isWildNums s = true := by
  unfold isNums at h
  unfold isWildNums
  rw [List.all_eq_true] at h ⊢
  intro part hpart
  rw [isWild, h part hpart, Bool.or_true]

theorem isWildNums_dot {a rest : Str} (ha : IsNumber a) :
    isWildNums (a ++ codePoint '.' :: rest) = isWildNums rest := by
  unfold isWildNums
  rw [List.splitOn_append_cons_self_of_not_mem (ha.not_mem dot_not_digit), List.all_cons,
    isWild_number ha, Bool.true_and]

theorem isWildNums_number {a : Str} (ha : IsNumber a) : isWildNums a = true := by
  unfold isWildNums
  rw [List.splitOn_eq_singleton (ha.not_mem dot_not_digit), List.all_cons, isWild_number ha]
  rfl

theorem isWildNums_nil : isWildNums [] = false := by decide

/-- The first component goes up to the first dot. -/
theorem splitOn_append_head {a : CodePoint} {s : Str} (h : a ∉ s) (t : Str) :
    ∃ part parts, (s ++ t).splitOn a = (s ++ part) :: parts := by
  induction s with
  | nil =>
    obtain ⟨part, parts, hsplit⟩ := List.exists_cons_of_ne_nil (List.splitOn_ne_nil a t)
    exact ⟨part, parts, hsplit⟩
  | cons c s ih =>
    obtain ⟨part, parts, hsplit⟩ := ih fun hmem => h (List.mem_cons_of_mem _ hmem)
    have hc : (c == a) = false := by
      rw [beq_eq_false_iff_ne]
      exact fun heq => h (heq ▸ List.mem_cons_self)
    refine ⟨part, parts, ?_⟩
    rw [List.cons_append, List.splitOn_cons_eq_if_modifyHead, hsplit, hc]
    rfl

/-- Behind a number only a dot and more components make components of the whole. -/
theorem isWildNums_append {a m : Str} (ha : IsNumber a)
    (hm : ∀ c ∈ m.head?, digitValue? c = none) : isWildNums (a ++ m) = moreWild m := by
  cases m with
  | nil =>
    rw [List.append_nil, isWildNums_number ha]
    rfl
  | cons c m =>
    by_cases hdot : c = codePoint '.'
    · subst hdot
      rw [isWildNums_dot ha, moreWild, decide_eq_true rfl, Bool.true_and]
    · have hmem : codePoint '.' ∉ a ++ [c] := by
        rw [List.mem_append, List.mem_singleton, not_or]
        exact ⟨ha.not_mem dot_not_digit, Ne.symm hdot⟩
      obtain ⟨part, parts, hsplit⟩ := splitOn_append_head hmem m
      rw [List.append_assoc, List.singleton_append] at hsplit
      have hpart : isWild (a ++ [c] ++ part) = false := by
        obtain ⟨d, rest, rfl⟩ := List.exists_cons_of_ne_nil ha.1
        simp [isWild, lit, hm c rfl]
      unfold isWildNums
      rw [hsplit, List.all_cons, hpart, Bool.false_and, moreWild, decide_eq_false hdot,
        Bool.false_and]

/-! ## The part that is read -/

theorem leadingDigits_spec (s : Str) :
    s = (leadingDigits s).1 ++ (leadingDigits s).2 ∧
      (∀ c ∈ (leadingDigits s).1, (digitValue? c).isSome = true) ∧
      ∀ c ∈ (leadingDigits s).2.head?, digitValue? c = none := by
  refine ⟨List.takeWhile_append_dropWhile.symm, ?_, ?_⟩
  · intro c hc
    have hdigit := List.mem_takeWhile_imp (p := fun c => (digitValue? c).isSome) hc
    exact hdigit
  intro c hc
  have hhead := List.head?_dropWhile_not (fun c => (digitValue? c).isSome) s
  rw [Option.mem_def, leadingDigits] at hc
  rw [hc] at hhead
  simpa using hhead

/-- A dot and a number, or no dot with a digit behind it. -/
theorem dottedDigits_cases (s : Str) :
    dottedDigits s = (none, s) ∨
      ∃ b behind, IsNumber b ∧ s = codePoint '.' :: (b ++ behind) ∧
        dottedDigits s = (some b, behind) ∧ ∀ c ∈ behind.head?, digitValue? c = none := by
  cases s with
  | nil => exact Or.inl rfl
  | cons c rest =>
    obtain ⟨hrest, hdigits, hhead⟩ := leadingDigits_spec rest
    by_cases h : c = codePoint '.' ∧ (leadingDigits rest).1 ≠ []
    · refine Or.inr ⟨_, _, ⟨h.2, hdigits⟩, ?_, ?_, hhead⟩
      · rw [← hrest, h.1]
      · rw [dottedDigits, if_pos h]
    · exact Or.inl (by rw [dottedDigits, if_neg h])

/-- What is read is a number or two, and no digit stands behind it. -/
theorem read_cases {text : Str} (h : (threeParts text).1 ≠ []) :
    text = readPart text ++ behindPart text ∧
      (∀ c ∈ (behindPart text).head?, digitValue? c = none) ∧
      (IsNumber (readPart text) ∨
        ∃ a b, IsNumber a ∧ IsNumber b ∧ readPart text = a ++ codePoint '.' :: b) := by
  obtain ⟨hsplit, hdigits, hhead⟩ := leadingDigits_spec text
  have ha : IsNumber (leadingDigits text).1 := ⟨h, hdigits⟩
  unfold readPart behindPart
  rcases dottedDigits_cases (leadingDigits text).2 with hnone | ⟨b, behind, hb, hrest, hsome, hbehind⟩
  · simp only [hnone]
    rw [List.append_nil]
    exact ⟨hsplit, hhead, Or.inl ha⟩
  · simp only [hsome]
    refine ⟨?_, hbehind, Or.inr ⟨_, b, ha, hb, rfl⟩⟩
    rw [List.append_assoc, List.cons_append, ← hrest]
    exact hsplit

theorem isWildNums_read {text m : Str} (h : (threeParts text).1 ≠ [])
    (hm : ∀ c ∈ m.head?, digitValue? c = none) :
    isWildNums (readPart text ++ m) = moreWild m := by
  rcases (read_cases h).2.2 with ha | ⟨a, b, ha, hb, hread⟩
  · exact isWildNums_append ha hm
  · rw [hread, List.append_assoc, List.cons_append, isWildNums_dot ha]
    exact isWildNums_append hb hm

/-! ## Splits of a text -/

theorem any_splits {s : Str} {P : Str → Str → Bool} :
    ((List.range (s.length + 1)).any fun n => P (s.take n) (s.drop n)) = true ↔
      ∃ before behind, s = before ++ behind ∧ P before behind = true := by
  rw [List.any_eq_true]
  constructor
  · rintro ⟨n, -, h⟩
    exact ⟨_, _, (List.take_append_drop n s).symm, h⟩
  · rintro ⟨before, behind, rfl, h⟩
    refine ⟨before.length, List.mem_range.mpr (by simp), ?_⟩
    rwa [List.take_left, List.drop_left]

/-- A tag that reaches back to a digit has that digit and no other characters than a tag's. -/
theorem tag_of_digit {s behind : Str} {d : CodePoint} (hd : (digitValue? d).isSome = true)
    (h : (restOf (s ++ d :: behind)).isSome = true) :
    isTagStart d = true ∧ behind.all isTagChar = true := by
  have hdot : d ≠ codePoint '.' := digit_ne hd (by decide)
  have hdash : d ≠ codePoint '-' := digit_ne hd (by decide)
  have hplus : d ≠ codePoint '+' := digit_ne hd (by decide)
  have htag : ∀ t : Str, (tagOf (t ++ d :: behind)).isSome = true →
      isTagStart d = true ∧ behind.all isTagChar = true := by
    intro t ht
    cases t with
    | nil =>
      rw [List.nil_append, tagOf] at ht
      split_ifs at ht with hall
      · rw [Bool.and_eq_true] at hall
        exact hall
      · cases ht
    | cons c t =>
      rw [List.cons_append, tagOf] at ht
      split_ifs at ht with hall
      · rw [Bool.and_eq_true, List.all_append, Bool.and_eq_true, List.all_cons,
          Bool.and_eq_true] at hall
        refine ⟨?_, hall.2.2.2⟩
        simpa [hdot, hdash] using hall.2.2.1
      · cases ht
  cases s with
  | nil =>
    rw [List.nil_append, restOf, if_neg (by simp [hdot, hdash, hplus])] at h
    exact htag [] h
  | cons c s =>
    rw [List.cons_append, restOf] at h
    split_ifs at h
    · exact htag s h
    · exact htag (c :: s) h

theorem restOf_tag {d : CodePoint} {behind : Str} (hd : (digitValue? d).isSome = true)
    (hstart : isTagStart d = true) (hbehind : behind.all isTagChar = true) :
    (restOf (d :: behind)).isSome = true ∧ (restOf (codePoint '.' :: d :: behind)).isSome = true := by
  have hdot : d ≠ codePoint '.' := digit_ne hd (by decide)
  have hdash : d ≠ codePoint '-' := digit_ne hd (by decide)
  have hplus : d ≠ codePoint '+' := digit_ne hd (by decide)
  have htag : tagOf (d :: behind) = some (some (d :: behind)) := by
    rw [tagOf, if_pos]
    rw [Bool.and_eq_true]
    exact ⟨hstart, hbehind⟩
  constructor
  · rw [restOf, if_neg (by simp [hdot, hdash, hplus]), htag]
    rfl
  · rw [restOf, if_pos (Or.inl rfl), htag]
    rfl

/-! ## Reading to the end -/

theorem number_snoc {a : Str} (ha : IsNumber a) :
    ∃ front d, a = front ++ [d] ∧ (digitValue? d).isSome = true ∧ (front = [] ∨ IsNumber front) := by
  obtain ⟨front, d, rfl⟩ : ∃ front d, a = front ++ [d] :=
    ⟨a.dropLast, a.getLast ha.1, (List.dropLast_append_getLast ha.1).symm⟩
  refine ⟨front, d, rfl, ha.2 d (by simp), ?_⟩
  by_cases hfront : front = []
  · exact Or.inl hfront
  · exact Or.inr ⟨hfront, fun c hc => ha.2 c (List.mem_append_left _ hc)⟩

/-- What is read ends with a digit, and before it stand components again or one digit alone. -/
theorem read_snoc {text : Str} (h : (threeParts text).1 ≠ []) :
    ∃ front d, readPart text = front ++ [d] ∧ (digitValue? d).isSome = true ∧
      (front = [] ∨ isWildNums front = true ∨
        ∃ a, front = a ++ [codePoint '.'] ∧ isWildNums a = true) := by
  rcases (read_cases h).2.2 with ha | ⟨a, b, ha, hb, hread⟩
  · obtain ⟨front, d, heq, hd, hfront⟩ := number_snoc ha
    exact ⟨front, d, heq, hd, hfront.imp_right fun h => Or.inl (isWildNums_number h)⟩
  · obtain ⟨front, d, rfl, hd, hfront⟩ := number_snoc hb
    refine ⟨a ++ codePoint '.' :: front, d, by simp [hread], hd, Or.inr ?_⟩
    rcases hfront with rfl | hfront
    · exact Or.inr ⟨a, rfl, isWildNums_number ha⟩
    · rw [isWildNums_dot ha]
      exact Or.inl (isWildNums_number hfront)

theorem harmlessRest_iff (text : Str) :
    harmlessRest text = true ↔
      (∃ more behind, behindPart text = more ++ behind ∧ moreWild more = true ∧
          (restOf behind).isSome = true) ∨
        2 ≤ (readPart text).length ∧ (readPart text).getLast?.any isTagStart = true ∧
          (behindPart text).all isTagChar = true := by
  unfold harmlessRest
  rw [Bool.or_eq_true, Bool.and_eq_true, Bool.and_eq_true, decide_eq_true_iff, and_assoc,
    any_splits (P := fun more behind => moreWild more && (restOf behind).isSome)]
  simp only [Bool.and_eq_true]

theorem versionBody_number {text : Str} (hstrip : strip text = text)
    (h : (threeParts text).1 ≠ []) : versionBody text = text := by
  obtain ⟨c, rest, hcons⟩ := List.exists_cons_of_ne_nil h
  have hc : (digitValue? c).isSome = true :=
    (leadingDigits_spec text).2.1 c (by
      show c ∈ (threeParts text).1
      rw [hcons]
      exact List.mem_cons_self)
  have htext : text.head? = some c := by
    rw [(leadingDigits_spec text).1]
    show ((threeParts text).1 ++ _).head? = _
    rw [hcons]
    rfl
  unfold versionBody
  rw [hstrip]
  dsimp only
  rw [if_neg]
  rw [htext]
  exact fun heq => digit_ne hc (by decide) (Option.some_inj.mp heq)

/-- A tag that reaches back into what is read begins with its last digit at the latest. -/
theorem tag_reaches_back {text nums back : Str} (h : (threeParts text).1 ≠ [])
    (hread : readPart text = nums ++ back) (hnums : isWildNums nums = true) (hback : back ≠ [])
    (hrest : (restOf (back ++ behindPart text)).isSome = true) :
    2 ≤ (readPart text).length ∧ (readPart text).getLast?.any isTagStart = true ∧
      (behindPart text).all isTagChar = true := by
  obtain ⟨front, d, hfront, hd, -⟩ := read_snoc h
  obtain ⟨start, e, rfl⟩ : ∃ start e, back = start ++ [e] :=
    ⟨_, _, (List.dropLast_append_getLast hback).symm⟩
  rw [hfront, ← List.append_assoc] at hread
  obtain ⟨rfl, heq⟩ := List.append_inj' hread rfl
  obtain rfl : d = e := by simpa using heq
  have hne : nums ≠ [] := by
    rintro rfl
    rw [isWildNums_nil] at hnums
    cases hnums
  have hpos := List.length_pos_of_ne_nil hne
  rw [List.append_assoc, List.singleton_append] at hrest
  obtain ⟨hstart, hall⟩ := tag_of_digit hd hrest
  rw [hfront]
  refine ⟨?_, ?_, hall⟩
  · simp only [List.length_append, List.length_singleton]
    omega
  · rw [List.getLast?_concat]
    exact hstart

/-- Of a text that begins with a digit the whole is a version if its rest is harmless. -/
theorem isWholeVersion_iff {text : Str} (hstrip : strip text = text)
    (h : (threeParts text).1 ≠ []) :
    isWholeVersion text = true ↔ harmlessRest text = true := by
  obtain ⟨hsplit, hhead, -⟩ := read_cases h
  unfold isWholeVersion
  dsimp only
  rw [versionBody_number hstrip h,
    any_splits (P := fun nums behind => isWildNums nums && (restOf behind).isSome), harmlessRest_iff]
  simp only [Bool.and_eq_true]
  have hfirst : ∀ more behind, behindPart text = more ++ behind →
      ∀ c ∈ more.head?, digitValue? c = none := by
    intro more behind heq c hc
    refine hhead c ?_
    rw [heq, List.head?_append, hc]
    rfl
  constructor
  · rintro ⟨nums, behind, heq, hnums, hbehind⟩
    rw [hsplit] at heq
    rcases List.append_eq_append_iff.mp heq with ⟨more, rfl, hrest⟩ | ⟨back, hback, rfl⟩
    · rw [isWildNums_read h (hfirst more behind hrest)] at hnums
      exact Or.inl ⟨more, behind, hrest, hnums, hbehind⟩
    · by_cases hnil : back = []
      · subst hnil
        exact Or.inl ⟨[], behindPart text, rfl, rfl, hbehind⟩
      · exact Or.inr (tag_reaches_back h hback hnums hnil hbehind)
  · rintro (⟨more, behind, hrest, hmore, hbehind⟩ | ⟨hlen, hlast, hall⟩)
    · refine ⟨readPart text ++ more, behind, ?_, ?_, hbehind⟩
      · rw [List.append_assoc, ← hrest]
        exact hsplit
      · rw [isWildNums_read h (hfirst more behind hrest), hmore]
    · obtain ⟨front, d, hread, hd, hfront⟩ := read_snoc h
      rw [hread, List.getLast?_concat] at hlast
      obtain ⟨hplain, hdotted⟩ := restOf_tag hd hlast hall
      rcases hfront with rfl | hwild | ⟨a, rfl, hwild⟩
      · rw [hread] at hlen
        exact absurd hlen (by simp)
      · exact ⟨front, d :: behindPart text, by rw [hread] at hsplit; simpa using hsplit, hwild, hplain⟩
      · exact ⟨a, codePoint '.' :: d :: behindPart text,
          by rw [hread] at hsplit; simpa using hsplit, hwild, hdotted⟩

/-! ## Accepted clauses -/

theorem splitVersion_isSome {s : Str} (h : (splitVersion s).isSome = true) :
    ∃ nums behind, s = nums ++ behind ∧ isNums nums = true ∧ (restOf behind).isSome = true := by
  unfold splitVersion at h
  rw [List.findSome?_isSome_iff] at h
  obtain ⟨n, -, h⟩ := h
  split_ifs at h with hnums
  · rw [Option.isSome_map] at h
    exact ⟨_, _, (List.take_append_drop (n + 1) s).symm, hnums, h⟩
  · cases h

/-- What is read as a version is a number or more between dots and a tag. -/
theorem parseVersion_eq (limits : Limits) (raw : Str) :
    parseVersion limits raw = (splitVersion (versionBody raw)).bind fun parts =>
      ((parts.1.splitOn (codePoint '.')).mapM (digitsOf limits)).map fun nums => ⟨nums, parts.2⟩ := by
  unfold parseVersion versionBody
  dsimp only
  generalize splitVersion _ = parts
  cases parts with
  | none => rfl
  | some parts => rfl

theorem parseVersion_split {raw : Str} (h : (parseVersion limits raw).isSome = true) :
    ∃ nums behind, versionBody raw = nums ++ behind ∧ isNums nums = true ∧
      (restOf behind).isSome = true := by
  obtain ⟨version, hversion⟩ := Option.isSome_iff_exists.mp h
  rw [parseVersion_eq] at hversion
  obtain ⟨parts, hparts, -⟩ := Option.bind_eq_some_iff.mp hversion
  exact splitVersion_isSome (Option.isSome_iff_exists.mpr ⟨parts, hparts⟩)

theorem isWholeVersion_of_parse {raw : Str} (h : (parseVersion limits raw).isSome = true) :
    isWholeVersion raw = true := by
  obtain ⟨nums, behind, heq, hnums, hbehind⟩ := parseVersion_split h
  unfold isWholeVersion
  dsimp only
  rw [any_splits (P := fun nums behind => isWildNums nums && (restOf behind).isSome)]
  exact ⟨nums, behind, heq, by rw [isWildNums_of_isNums hnums, hbehind]; rfl⟩

/-- Where more than the first numbers is used, the text is read as a version. -/
theorem parse_of_not_readsPrefix {op : Option Op} {text : Str}
    (h : (partialClauses limits op text).isSome = true) (hop : ¬readsPrefix op text = true) :
    (parseVersion limits text).isSome = true := by
  have hexactly : ∀ o, (exactly limits o text).isSome = true →
      (parseVersion limits text).isSome = true := by
    intro o ho
    rwa [exactly, Option.isSome_map] at ho
  rw [partialClauses_eq] at h
  unfold readsPrefix at hop
  split_ifs at h with hnil hthree
  · exact hexactly op h
  · obtain ⟨clauses, h⟩ := Option.isSome_iff_exists.mp h
    obtain ⟨major, -, h⟩ := Option.bind_eq_some_iff.mp h
    exact hexactly op (Option.isSome_iff_exists.mpr ⟨clauses, h⟩)
  · obtain ⟨clauses, h⟩ := Option.isSome_iff_exists.mp h
    obtain ⟨major, -, h⟩ := Option.bind_eq_some_iff.mp h
    rw [Bool.not_eq_true] at hthree
    have hmajor : ((threeParts text).1 != []) = true := by simpa using hnil
    simp only [hmajor, hthree, Bool.not_false, Bool.true_and] at hop
    cases op with
    | none => exact absurd rfl hop
    | some op =>
      cases op with
      | ne => exact hexactly _ (Option.isSome_iff_exists.mpr ⟨clauses, h⟩)
      | lt =>
        rw [rewritten, if_neg hop] at h
        exact hexactly _ (Option.isSome_iff_exists.mpr ⟨clauses, h⟩)
      | le =>
        rw [rewritten, if_neg hop] at h
        exact hexactly _ (Option.isSome_iff_exists.mpr ⟨clauses, h⟩)
      | any => exact absurd rfl hop
      | eq => exact absurd rfl hop
      | gt => exact absurd rfl hop
      | ge => exact absurd rfl hop

theorem clauseVersion_spec {s version : Str} (h : clauseVersion s = some version) :
    version ≠ [] ∧ version <:+ s ∧ ∀ c ∈ version.head?, isSpace c = false := by
  unfold clauseVersion at h
  dsimp only at h
  split_ifs at h with hnone
  obtain rfl := Option.some_inj.mp h
  rw [not_or] at hnone
  refine ⟨hnone.1, List.dropWhile_suffix _, fun c hc => ?_⟩
  have hhead := List.head?_dropWhile_not isSpace s
  rw [Option.mem_def] at hc
  rw [hc] at hhead
  exact hhead

/-- The version of a stripped clause is stripped. -/
theorem clauseParts_stripped {raw version : Str} {op : Option Op}
    (h : clauseParts (strip raw) = some (op, version)) : strip version = version := by
  have hversion : ∃ s, s <:+ strip raw ∧ clauseVersion s = some version := by
    rw [clauseParts_eq] at h
    rcases Option.or_eq_some_iff.mp h with h | ⟨-, h⟩
    · obtain ⟨written, -, h⟩ := List.exists_of_findSome?_eq_some h
      unfold clauseWith at h
      split_ifs at h
      obtain ⟨rest, hrest, heq⟩ := Option.map_eq_some_iff.mp h
      obtain ⟨-, rfl⟩ := Prod.mk.inj heq
      exact ⟨_, List.drop_suffix _ _, hrest⟩
    · obtain ⟨rest, hrest, heq⟩ := Option.map_eq_some_iff.mp h
      obtain ⟨-, rfl⟩ := Prod.mk.inj heq
      exact ⟨_, List.suffix_rfl, hrest⟩
  obtain ⟨s, hsuffix, hs⟩ := hversion
  obtain ⟨hne, hwithin, hhead⟩ := clauseVersion_spec hs
  obtain ⟨before, hbefore⟩ := hwithin.trans hsuffix
  rw [strip_eq_stripChars]
  refine stripChars_eq_self hhead fun c hc => ?_
  have hlast : c ∈ (strip raw).getLast? := by
    rw [← hbefore, List.getLast?_append_of_ne_nil _ hne]
    exact hc
  rw [strip_eq_stripChars, stripChars_eq] at hlast
  exact stripEnd_getLast c hlast

/-- An accepted clause is a whole one if it is read to its end. -/
theorem isWholeClause_iff {raw : Str} (h : (parseClause limits raw).isSome = true)
    (hne : strip raw ≠ []) : isWholeClause (strip raw) = true ↔ ReadToEnd (strip raw) := by
  by_cases hstar : strip raw = lit "*"
  · rw [hstar]
    refine iff_of_true (by decide) ?_
    intro op version hparts hreads
    have hone : clauseParts (lit "*") = some (none, lit "*") := by decide
    obtain ⟨rfl, rfl⟩ := Prod.mk.inj (Option.some_inj.mp (hone.symm.trans hparts))
    exact absurd hreads (by decide)
  · unfold parseClause at h
    dsimp only at h
    rw [if_neg hne, if_neg hstar] at h
    obtain ⟨clauses, h⟩ := Option.isSome_iff_exists.mp h
    obtain ⟨⟨op, version⟩, hparts, hclauses⟩ := Option.bind_eq_some_iff.mp h
    have hread : ReadToEnd (strip raw) ↔
        (readsPrefix op version = true → harmlessRest version = true) := by
      constructor
      · exact fun hall => hall op version hparts
      · intro hone o v ho
        obtain ⟨rfl, rfl⟩ := Prod.mk.inj (Option.some_inj.mp (hparts.symm.trans ho))
        exact hone
    rw [hread, isWholeClause, hparts]
    dsimp only
    by_cases hprefix : readsPrefix op version = true
    · have hmajor : (threeParts version).1 ≠ [] := by
        unfold readsPrefix at hprefix
        rw [Bool.and_eq_true, Bool.and_eq_true] at hprefix
        simpa using hprefix.1.1
      rw [isWholeVersion_iff (clauseParts_stripped hparts) hmajor]
      exact ⟨fun hall _ => hall, fun hall => hall hprefix⟩
    · refine iff_of_true ?_ fun hreads => absurd hreads hprefix
      exact isWholeVersion_of_parse
        (parse_of_not_readsPrefix (Option.isSome_iff_exists.mpr ⟨clauses, hclauses⟩) hprefix)

theorem parseSpec_clauses {spec : Str} {groups : List (List (Op × Version))}
    (h : parseSpec limits spec = some groups) :
    ∀ raw ∈ splitGroups spec, ∀ clause ∈ raw.splitOn (codePoint ','),
      (parseClause limits clause).isSome = true := by
  unfold parseSpec at h
  obtain ⟨parsed, hparsed, -⟩ := Option.bind_eq_some_iff.mp h
  intro raw hraw clause hclause
  obtain ⟨group, -, hgroup⟩ := exists_of_mapM hparsed hraw
  obtain ⟨clauses, hclauses, -⟩ := Option.bind_eq_some_iff.mp hgroup
  obtain ⟨parts, -, hparts⟩ := exists_of_mapM hclauses hclause
  exact Option.isSome_iff_exists.mpr ⟨parts, hparts⟩

/-- Where an accepted range has no text that is not looked at: every clause of which the
first numbers alone are used ends with these or with more components and a tag. -/
theorem allWhole_iff {spec : Str} {groups : List (List (Op × Version))}
    (h : parseSpec limits spec = some groups) :
    AllWhole spec ↔ ∀ text ∈ clauseTexts spec, ReadToEnd text := by
  have haccepted := parseSpec_clauses h
  unfold AllWhole clauseTexts
  constructor
  · intro hwhole text htext
    obtain ⟨raw, hraw, hmem⟩ := List.mem_flatMap.mp htext
    obtain ⟨clause, hclause, rfl⟩ := List.mem_map.mp hmem
    by_cases hnil : strip clause = []
    · rw [hnil]
      intro op version hparts
      have hnone : clauseParts [] = none := by decide
      rw [hnone] at hparts
      cases hparts
    · exact (isWholeClause_iff (haccepted raw hraw clause hclause) hnil).mp (hwhole _ htext hnil)
  · intro hread text htext hne
    obtain ⟨raw, hraw, hmem⟩ := List.mem_flatMap.mp htext
    obtain ⟨clause, hclause, rfl⟩ := List.mem_map.mp hmem
    exact (isWholeClause_iff (haccepted raw hraw clause hclause) hne).mpr (hread _ htext)

theorem allWhole_alternatives : AllWhole ">=16.x,<20 || 14-lts" := by
  have haccepted : (parseSpec ⟨1000, 4300⟩ ">=16.x,<20 || 14-lts").isSome = true := by
    decide +kernel
  obtain ⟨groups, h⟩ := Option.isSome_iff_exists.mp haccepted
  exact (allWhole_iff h).mpr (by decide +kernel)

/-- `>=16 <20` is taken for `>=16`. -/
theorem upperBound_dropped :
    parseSpec ⟨1000, 4300⟩ ">=16 <20" = some [[(.ge, release [16, 0, 0])]] ∧
      ¬AllWhole ">=16 <20" := by
  refine ⟨by decide +kernel, fun h => ?_⟩
  exact absurd (h ">=16 <20" (by decide +kernel) (by decide)) (by decide +kernel)

end DevRepro.Core
