import DevRepro.Privacy.Passes

/-!
# The final privacy pass

`_sanitize_report` of `cli/pipeline.py`: the report is written as JSON, the text is
redacted, and the result is read again.

The gate works on the text and the promise is about the strings that are read.
`sanitized_clean` says for which home paths, names and reports it is kept: what can go
wrong is a spelling in JSON that the gate does not look for, and an escape whose last
letter touches the name.
-/

namespace DevRepro.Privacy

open DevRepro.Python DevRepro.Lib Scan

variable {normcase : Str → Str}

/-- `_sanitize_report`.  A report is the document that `model_dump` makes of it, and `valid`
tells which documents `model_validate` accepts. -/
def sanitizeReport (rt : Runtime) (gate : PrivacyGate normcase) (valid : Json → Except Exc Unit)
    (report : Json) : Except Exc Json := do
  let payload ← dumps rt .plain report
  let sanitized := gate.redact payload
  let data ← loads rt.limits sanitized
  valid data
  return data

/-! ## What is promised -/

/-- A place with no word character on either side. -/
def Delimited (before behind : Str) : Prop :=
  isBoundary before.getLast? = true ∧ isBoundary behind.head? = true

/-- A string has neither the home path nor the account name in it, but in placeholders. -/
structure Clean (gate : PrivacyGate normcase) (s : Str) : Prop where
  home : ∀ before behind, s = before ++ (gate.home ++ behind) →
    ∃ p ∈ placeholders, Inside p before gate.home behind
  username : ∀ before behind, s = before ++ (gate.username ++ behind) →
    Delimited before behind → ∃ p ∈ placeholders, Inside p before gate.username behind

/-! ## When it is kept -/

/-- What JSON makes of a text inside a literal. -/
def jsonSpelling (s : Str) : Str := s.flatMap escapeChar

/-- A name that is spelt as it is, starts with a letter, and ends with a word character. -/
structure SimpleName (name : Str) : Prop where
  plain : jsonSpelling name = name
  head : ∃ c ∈ name.head?, isLetter c = true
  last : ∃ c ∈ name.getLast?, isWordChar c = true

/-- An escape ends right before a name in a text: its last character touches the name. -/
def EscapeTouches (variants : List Str) (name text : Str) : Prop :=
  ∃ before c behind, text = before ++ (escapeChar c ++ name ++ behind) ∧ Settled isMark before ∧
    isWordChar c = false ∧ isBoundary (escapeChar c).getLast? = false ∧ Opens variants behind

/-- The home path and the account name are looked for as the text spells them, or the text
does not hold them. -/
structure PrivacyGate.Sees (gate : PrivacyGate normcase) (text : Str) : Prop where
  home : jsonSpelling gate.home = gate.home ∨ ¬jsonSpelling gate.home <:+: text
  username : SimpleName gate.username ∧ ¬EscapeTouches gate.homeVariants gate.username text ∨
    Foreign (jsonSpelling gate.username) ∧ ¬jsonSpelling gate.username <:+: text

/-! ## The account name in the redacted text -/

section Name

variable {name : Str}

theorem isWordChar_of_isLetter {c : CodePoint} (h : isLetter c = true) : isWordChar c = true := by
  simp [isWordChar, isAlnum, h]

theorem SimpleName.ne_nil (h : SimpleName name) : name ≠ [] := by
  rintro rfl
  obtain ⟨c, hc, -⟩ := h.head
  cases hc

/-- A name that no pass uncovers: its ends are alike, and an address on either side takes a part
of it. -/
structure Anchored (name : Str) : Prop where
  edges : ∀ f ∈ name.head?, ∀ l ∈ name.getLast?, isWordChar f = isWordChar l
  start : ∀ f ∈ name.head?, isLetter f = true ∨ domainRest name ≠ none
  last : ∀ l ∈ name.getLast?, isLocalChar l = true

theorem SimpleName.anchored (h : SimpleName name) : Anchored name := by
  obtain ⟨first, hfirst, hletter⟩ := h.head
  obtain ⟨final, hfinal, hword⟩ := h.last
  refine ⟨fun f hf l hl => ?_, fun f hf => ?_, fun l hl => ?_⟩
  · obtain rfl := Option.mem_unique hf hfirst
    obtain rfl := Option.mem_unique hl hfinal
    rw [isWordChar_of_isLetter hletter, hword]
  · obtain rfl := Option.mem_unique hf hfirst
    exact Or.inl hletter
  · obtain rfl := Option.mem_unique hl hfinal
    exact isWordChar_local hword

/-- The last character of a kept name was kept, and what follows it. -/
theorem kept_behind (hne : name ≠ []) (hmarks : Unmarked name) {m : Matcher CodePoint}
    {new : Str} (hnew : new ∈ placeholders) {prev : Option CodePoint} {b b' : Str}
    (h : Subst m new prev (name ++ b) (name ++ b')) :
    ∃ p c, name.getLast? = some c ∧ (∀ n, m.find p (c :: b) ≠ some (n + 1)) ∧
      Subst m new (some c) b b' := by
  obtain ⟨front, d, rfl⟩ := (List.eq_nil_or_concat' _).resolve_left hne
  rw [List.append_assoc, List.append_assoc] at h
  obtain ⟨b₀, hb, hsub⟩ := h.start (placeholder_fenced hnew) fun e he =>
    hmarks e (List.mem_append_left _ he)
  obtain rfl : [d] ++ b = b₀ := List.append_cancel_left hb
  exact ⟨_, d, by simp, subst_kept hnew (hmarks d (by simp)) hsub⟩

theorem find_user {b : Str} {prev : Option CodePoint} (hleft : isBoundary prev = true)
    (hright : isBoundary b.head? = true) :
    (userMatcher name).find prev (name ++ b) = some name.length := by
  change (if isBoundary prev && name.isPrefixOf (name ++ b) &&
    isBoundary ((name ++ b).drop name.length).head? then some name.length else none) = _
  have hstart : name.isPrefixOf (name ++ b) = true :=
    List.isPrefixOf_iff_prefix.mpr (List.prefix_append _ _)
  rw [hleft, hstart, List.drop_left, hright]
  rfl

theorem head?_append_of_ne_nil {a : Str} (h : a ≠ []) (b : Str) : (a ++ b).head? = a.head? := by
  obtain ⟨c, rest, rfl⟩ := List.exists_cons_of_ne_nil h
  rfl

/-- Both ends of a name are word characters, or none is. -/
theorem Anchored.boundary (h : Anchored name) (hne : name ≠ []) :
    isBoundary name.head? = isBoundary name.getLast? := by
  obtain ⟨l, hl⟩ := Option.isSome_iff_exists.mp (List.getLast?_isSome.mpr hne)
  obtain ⟨f, hf⟩ := Option.isSome_iff_exists.mp (List.isSome_head?.mpr hne)
  rw [hl, hf]
  exact congrArg not (h.edges f hf l hl)

/-- Behind the pass for the name, a delimited name stands in a placeholder. -/
theorem user_delimited (hne : name ≠ []) (hname : Anchored name) (hmarks : Unmarked name)
    {text a' b' : Str}
    (hout : subAll (userMatcher name) userPlaceholder text = a' ++ (name ++ b'))
    (hdelimited : Delimited a' b') : Inside userPlaceholder a' name b' := by
  have huser : userPlaceholder ∈ placeholders := by simp [placeholders]
  refine ((subst_subAll text).split (placeholder_fenced huser) hmarks hne hout).resolve_right ?_
  rintro ⟨a, b, -, -, hsub, hsame⟩
  have hends := hname.boundary hne
  have hleft : isBoundary (a.getLast?.or none) = true := by
    rw [Option.or_none]
    rcases hsame with hsame | ⟨-, p, seg, hseg, hsuf, hfind⟩
    · rw [hsame]
      exact hdelimited.1
    · -- a name that follows a name starts with no word character, and so ends with none
      obtain ⟨-, hstart, hbound, hlen⟩ := find_user_eq_some hfind
      obtain rfl := eq_of_start hstart hlen
      rw [List.drop_left, head?_append_of_ne_nil hne, hends] at hbound
      obtain ⟨t, rfl⟩ := hsuf
      rw [List.getLast?_append_of_ne_nil _ hne]
      exact hbound
  have hright : isBoundary b.head? = true := by
    obtain ⟨p, c, hlast, -, hrest⟩ := kept_behind hne hmarks huser hsub
    rcases subst_inv hrest with ⟨rfl, -⟩ | ⟨d, rest, out', rfl, rfl, -, -⟩ | ⟨d, seg, rest, out', rfl, -, hsome⟩
    · rfl
    · exact hdelimited.2
    · obtain ⟨hbound, hstart, -, hlen⟩ := find_user_eq_some hsome
      obtain rfl := eq_of_start hstart hlen
      rw [head?_append_of_ne_nil hne, hends, hlast]
      exact hbound
  obtain ⟨c, rest, rfl⟩ := List.exists_cons_of_ne_nil hne
  exact (subst_kept huser (hmarks c List.mem_cons_self) hsub).1 rest.length (find_user hleft hright)

/-- Behind the pass for addresses, a delimited name stands in a placeholder, or it was
there with the same neighbours. -/
theorem email_delimited (hne : name ≠ []) (hname : Anchored name) (hmarks : Unmarked name)
    {text a' b' : Str} (hout : subAll emailMatcher emailPlaceholder text = a' ++ (name ++ b')) :
    Inside emailPlaceholder a' name b' ∨
      ∃ a b, text = a ++ (name ++ b) ∧ a.getLast? = a'.getLast? ∧ b.head? = b'.head? := by
  have hemail : emailPlaceholder ∈ placeholders := by simp [placeholders]
  refine ((subst_subAll text).split (placeholder_fenced hemail) hmarks hne hout).imp id ?_
  rintro ⟨a, b, htext, -, hsub, hsame⟩
  refine ⟨a, b, htext, ?_, ?_⟩
  · refine hsame.resolve_right ?_
    rintro ⟨-, p, seg, -, -, hfind⟩
    -- an address takes the letters behind it, and a domain
    obtain ⟨first, hfirst⟩ := Option.isSome_iff_exists.mp (List.isSome_head?.mpr hne)
    rcases hname.start first hfirst with hletter | hdomain
    · have hno := (find_email_eq_some hfind).2 first (by
        rw [head?_append_of_ne_nil hne]
        exact hfirst)
      rw [hno] at hletter
      cases hletter
    · exact domainRest_append hdomain b (emailMatch_longest hfind)
  · obtain ⟨p, c, hlast, hnone, hrest⟩ := kept_behind hne hmarks hemail hsub
    rcases subst_inv hrest with ⟨rfl, rfl⟩ | ⟨d, rest, out', rfl, rfl, -, -⟩ | ⟨d, seg, rest, out', rfl, -, hsome⟩
    · rfl
    · rfl
    · have haddress : emailMatch (d :: seg ++ rest) = some (d :: seg).length := hsome
      exact absurd (emailMatch_cons (hname.last c hlast) haddress) (hnone _)

/-- What stands around a name inside a placeholder. -/
theorem inside_bounds (hne : name ≠ []) (hmarks : Unmarked name) {p : Str} (hp : p ∈ placeholders)
    {a b : Str} (hdelimited : Delimited a b) (h : Inside p a name b) :
    ∃ x y, p = x ++ name ++ y ∧ x ≠ [] ∧ y ≠ [] ∧ isBoundary x.getLast? = true ∧
      isBoundary y.head? = true ∧ x.getLast? = a.getLast? ∧ y.head? = b.head? := by
  obtain ⟨x, y, hxy, hx, hy⟩ := h
  have hfenced := placeholder_fenced hp
  have hxne : x ≠ [] := by
    rintro rfl
    obtain ⟨c, hc, hmark⟩ := hfenced.head
    rw [hxy, List.nil_append, head?_append_of_ne_nil hne] at hc
    exact hmarks c (List.mem_of_mem_head? hc) hmark
  have hyne : y ≠ [] := by
    rintro rfl
    obtain ⟨c, hc, hmark⟩ := hfenced.last
    rw [hxy, List.append_nil, List.getLast?_append_of_ne_nil _ hne] at hc
    exact hmarks c (List.mem_of_getLast? hc) hmark
  have hxlast : x.getLast? = a.getLast? := by
    obtain ⟨t, rfl⟩ := hx
    exact (List.getLast?_append_of_ne_nil _ hxne).symm
  have hyhead : y.head? = b.head? := by
    obtain ⟨t, rfl⟩ := hy
    exact (head?_append_of_ne_nil hyne t).symm
  exact ⟨x, y, hxy, hxne, hyne, hxlast ▸ hdelimited.1, hyhead ▸ hdelimited.2, hxlast, hyhead⟩

/-- A name inside the placeholder for names fills it. -/
theorem inside_user (hne : name ≠ []) (hmarks : Unmarked name) {a b : Str}
    (hdelimited : Delimited a b) (h : Inside userPlaceholder a name b) :
    userPlaceholder = lit "<" ++ name ++ lit ">" ∧ a.getLast? = some (codePoint '<') ∧
      b.head? = some (codePoint '>') := by
  obtain ⟨x, y, hxy, hxne, hyne, hxbound, hybound, hxlast, hyhead⟩ :=
    inside_bounds hne hmarks (by simp [placeholders]) hdelimited h
  have hstarts : ∀ x ∈ userPlaceholder.inits, x ≠ [] → isBoundary x.getLast? = true →
      x = lit "<" ∨ x = userPlaceholder := by decide
  have hends : ∀ y ∈ userPlaceholder.tails, y ≠ [] → isBoundary y.head? = true →
      y = lit ">" ∨ y = userPlaceholder := by decide
  have hlen := congrArg List.length hxy
  rw [List.length_append, List.length_append] at hlen
  have hname := List.length_pos_of_ne_nil hne
  have hx' : x = lit "<" := by
    refine (hstarts x ((List.mem_inits _ _).mpr ⟨name ++ y, by rw [hxy, List.append_assoc]⟩) hxne
      hxbound).resolve_right ?_
    rintro rfl
    omega
  have hy' : y = lit ">" := by
    refine (hends y ((List.mem_tails _ _).mpr ⟨x ++ name, hxy.symm⟩) hyne hybound).resolve_right ?_
    rintro rfl
    omega
  rw [← hxlast, ← hyhead, hxy, hx', hy']
  exact ⟨rfl, rfl, rfl⟩

end Name

/-- In the redacted text a delimited name stands in a placeholder. -/
theorem redact_delimited {gate : PrivacyGate normcase} (h : gate.Ordinary)
    (hname : SimpleName gate.username) {text a b : Str}
    (hout : gate.redact text = a ++ (gate.username ++ b)) (hdelimited : Delimited a b) :
    ∃ p ∈ placeholders, Inside p a gate.username b := by
  unfold PrivacyGate.redact at hout
  rcases email_delimited hname.ne_nil hname.anchored h.username_unmarked hout with hinside | ⟨a₀, b₀, huser, hleft, hright⟩
  · exact ⟨emailPlaceholder, by simp [placeholders], hinside⟩
  · unfold PrivacyGate.redactUser at huser
    rw [if_pos h.username_nonempty] at huser
    have hdelimited₀ : Delimited a₀ b₀ := ⟨by rw [hleft]; exact hdelimited.1,
      by rw [hright]; exact hdelimited.2⟩
    have hinside := user_delimited hname.ne_nil hname.anchored h.username_unmarked huser hdelimited₀
    obtain ⟨hwhole, hlast, hhead⟩ :=
      inside_user hname.ne_nil h.username_unmarked hdelimited₀ hinside
    rw [hleft] at hlast
    rw [hright] at hhead
    obtain ⟨front, rfl⟩ := List.getLast?_eq_some_iff.mp hlast
    obtain ⟨rest, rfl⟩ := List.head?_eq_some_iff.mp hhead
    exact ⟨userPlaceholder, by simp [placeholders], lit "<", lit ">", hwhole,
      List.suffix_append _ _, ⟨rest, rfl⟩⟩

/-! ## From the text to its strings -/

theorem escapeUnit_unmarked (n : Nat) : Unmarked (escapeUnit n) := by
  have hall : ∀ d < 16, isMark (hexChar d) = false := by decide
  have hhex : ∀ m, isMark (hexChar (m % 16)) = false := fun m => hall _ (Nat.mod_lt m (by decide))
  have hslash : isMark (codePoint '\\') = false := by decide
  have hu : isMark (codePoint 'u') = false := by decide
  intro c hc
  rw [Bool.not_eq_true]
  simp only [escapeUnit, List.mem_cons, List.not_mem_nil, or_false] at hc
  rcases hc with rfl | rfl | rfl | rfl | rfl | rfl
  · exact hslash
  · exact hu
  · exact hhex _
  · exact hhex _
  · exact hhex _
  · exact hhex _

/-- A character is spelt as it is, or its spelling starts with a backslash. -/
theorem escapeChar_cases (c : CodePoint) :
    escapeChar c = [c] ∧ c ≠ codePoint '\\' ∧ c ≠ codePoint '"' ∨
      ∃ rest, escapeChar c = codePoint '\\' :: rest ∧ Unmarked rest := by
  have hunit : ∀ n, ∃ rest, escapeUnit n = codePoint '\\' :: rest ∧ Unmarked rest := by
    intro n
    refine ⟨_, rfl, fun d hd => escapeUnit_unmarked n d (List.mem_cons_of_mem _ hd)⟩
  have hone : ∀ d : CodePoint, isMark d = false → Unmarked [d] := by
    intro d hd e he
    rw [List.mem_singleton.mp he, hd]
    exact Bool.false_ne_true
  rw [escapeChar]
  by_cases hquote : c = codePoint '"'
  · rw [if_pos hquote]
    exact Or.inr ⟨[c], rfl, hone c (by rw [hquote]; decide)⟩
  rw [if_neg hquote]
  by_cases hslash : c = codePoint '\\'
  · rw [if_pos hslash]
    exact Or.inr ⟨[c], rfl, hone c (by rw [hslash]; decide)⟩
  rw [if_neg hslash]
  by_cases hplain : isPrintableAscii c = true
  · rw [if_pos hplain]
    exact Or.inl ⟨rfl, hslash, hquote⟩
  rw [if_neg hplain]
  by_cases hbackspace : c = 0x08
  · rw [if_pos hbackspace]
    exact Or.inr ⟨_, rfl, hone _ (by decide)⟩
  rw [if_neg hbackspace]
  by_cases htab : c = 0x09
  · rw [if_pos htab]
    exact Or.inr ⟨_, rfl, hone _ (by decide)⟩
  rw [if_neg htab]
  by_cases hnewline : c = 0x0A
  · rw [if_pos hnewline]
    exact Or.inr ⟨_, rfl, hone _ (by decide)⟩
  rw [if_neg hnewline]
  by_cases hfeed : c = 0x0C
  · rw [if_pos hfeed]
    exact Or.inr ⟨_, rfl, hone _ (by decide)⟩
  rw [if_neg hfeed]
  by_cases hreturn : c = 0x0D
  · rw [if_pos hreturn]
    exact Or.inr ⟨_, rfl, hone _ (by decide)⟩
  rw [if_neg hreturn]
  by_cases hlong : c.val < 0x10000
  · rw [if_pos hlong]
    exact Or.inr (hunit _)
  rw [if_neg hlong]
  obtain ⟨rest, hrest, hmarks⟩ := hunit (0xD800 + (c.val - 0x10000) / 0x400)
  refine Or.inr ⟨rest ++ escapeUnit (0xDC00 + (c.val - 0x10000) % 0x400), by rw [hrest]; rfl, ?_⟩
  intro d hd
  rcases List.mem_append.mp hd with hd | hd
  · exact hmarks d hd
  · exact escapeUnit_unmarked _ d hd

theorem escapeChar_unmarked {c : CodePoint} (h : ¬isMark c = true) : Unmarked (escapeChar c) := by
  rcases escapeChar_cases c with ⟨hplain, -⟩ | ⟨rest, hrest, hmarks⟩
  · rw [hplain]
    intro d hd
    rw [List.mem_singleton.mp hd]
    exact h
  · rw [hrest]
    exact List.forall_mem_cons.mpr ⟨by decide, hmarks⟩

theorem jsonSpelling_append (s t : Str) : jsonSpelling (s ++ t) = jsonSpelling s ++ jsonSpelling t :=
  List.flatMap_append

theorem jsonSpelling_cons (c : CodePoint) (s : Str) :
    jsonSpelling (c :: s) = escapeChar c ++ jsonSpelling s := List.flatMap_cons

theorem jsonSpelling_unmarked {s : Str} (h : Unmarked s) : Unmarked (jsonSpelling s) := by
  intro c hc
  obtain ⟨d, hd, hmem⟩ := List.mem_flatMap.mp hc
  exact escapeChar_unmarked (h d hd) c hmem

theorem jsonSpelling_ne_nil {s : Str} (h : s ≠ []) : jsonSpelling s ≠ [] := by
  obtain ⟨c, rest, rfl⟩ := List.exists_cons_of_ne_nil h
  rw [jsonSpelling_cons]
  rcases escapeChar_cases c with ⟨hplain, -⟩ | ⟨tail, htail, -⟩
  · rw [hplain]
    exact List.cons_ne_nil _ _
  · rw [htail]
    exact List.cons_ne_nil _ _

/-- No placeholder has a slash or a backslash. -/
theorem foreign_of_mem {w : Str} (h : codePoint '/' ∈ w ∨ codePoint '\\' ∈ w) : Foreign w := by
  have hall : ∀ p ∈ placeholders, codePoint '/' ∉ p ∧ codePoint '\\' ∉ p := by decide
  intro p hp hin
  rcases h with h | h
  · exact (hall p hp).1 (hin.subset h)
  · exact (hall p hp).2 (hin.subset h)

theorem jsonSpelling_foreign {s : Str} (h : codePoint '/' ∈ s ∨ codePoint '\\' ∈ s) :
    Foreign (jsonSpelling s) := by
  refine foreign_of_mem (h.imp (fun h => ?_) fun h => ?_)
  · exact List.mem_flatMap.mpr ⟨_, h, by decide⟩
  · exact List.mem_flatMap.mpr ⟨_, h, by decide⟩

/-- Characters of a placeholder. -/
def Plain (s : Str) : Prop := ∀ c ∈ s, c ≠ codePoint '\\' ∧ c ≠ codePoint '"'

theorem placeholder_is_plain {p : Str} (h : p ∈ placeholders) : Plain p := by
  have hall : ∀ p ∈ placeholders,
      p.all (fun c => c != codePoint '\\' && c != codePoint '"') = true := by decide
  intro c hc
  have := List.all_eq_true.mp (hall p h) c hc
  rwa [Bool.and_eq_true, bne_iff_ne, bne_iff_ne] at this

/-- A plain text at the start of a spelling is at the start of what is spelt. -/
theorem plain_start {y : Str} (hy : Plain y) {b behind : Str}
    (h : y <+: jsonSpelling b ++ codePoint '"' :: behind) : y <+: b := by
  induction y generalizing b with
  | nil => exact List.nil_prefix
  | cons c y ih =>
    rw [Plain, List.forall_mem_cons] at hy
    cases b with
    | nil => exact absurd (List.cons_prefix_cons.mp h).1 hy.1.2
    | cons d b =>
      rw [jsonSpelling_cons] at h
      rcases escapeChar_cases d with ⟨hplain, -⟩ | ⟨rest, hrest, -⟩
      · rw [hplain, List.append_assoc, List.singleton_append, List.cons_prefix_cons] at h
        rw [h.1]
        exact (List.prefix_cons_inj d).mpr (ih hy.2 h.2)
      · rw [hrest, List.append_assoc, List.cons_append, List.cons_prefix_cons] at h
        exact absurd h.1 hy.1.1

/-- A plain text at the end of a spelling, that starts with a mark, is at the end of what
is spelt. -/
theorem plain_end {before : Str} (a : Str) {x : Str} (hx : Plain x)
    (hmark : ∀ c ∈ x.head?, isMark c = true)
    (h : x <:+ before ++ codePoint '"' :: jsonSpelling a) : x <:+ a := by
  induction a using List.reverseRecOn generalizing x with
  | nil =>
    rcases List.eq_nil_or_concat' x with rfl | ⟨front, c, rfl⟩
    · exact List.nil_suffix
    · obtain ⟨t, ht⟩ := h
      have hlast := congrArg List.getLast? ht
      rw [← List.append_assoc, List.getLast?_append, List.getLast?_append, List.getLast?_append]
        at hlast
      have hc : some c = some (codePoint '"') := hlast
      exact absurd (Option.some.inj hc) (hx c (by simp)).2
  | append_singleton a c ih =>
    have hspell : jsonSpelling (a ++ [c]) = jsonSpelling a ++ escapeChar c := by
      rw [jsonSpelling_append, jsonSpelling_cons]
      exact congrArg _ (List.append_nil _)
    rw [hspell, ← List.cons_append, ← List.append_assoc] at h
    rcases List.eq_nil_or_concat' x with rfl | ⟨front, d, rfl⟩
    · exact List.nil_suffix
    · rcases escapeChar_cases c with ⟨hplain, -⟩ | ⟨rest, hrest, hmarks⟩
      · rw [hplain] at h
        obtain ⟨t, ht⟩ := h
        rw [← List.append_assoc] at ht
        obtain ⟨hfront, hd⟩ := List.append_inj' ht rfl
        rw [hd]
        have hfront' : front <:+ a := by
          refine ih (fun e he => hx e (List.mem_append_left _ he)) ?_ ⟨t, hfront⟩
          intro e he
          refine hmark e ?_
          rw [List.head?_append, Option.mem_def.mp he]
          rfl
        obtain ⟨u, rfl⟩ := hfront'
        exact ⟨u, by rw [List.append_assoc]⟩
      · rw [hrest] at h
        obtain ⟨t, ht⟩ := h
        obtain ⟨e, rest', hcons⟩ := List.exists_cons_of_ne_nil
          (show front ++ [d] ≠ [] by simp)
        rcases List.append_eq_append_iff.mp ht with ⟨u, -, hu⟩ | ⟨u, -, hu⟩
        · -- the escape ends inside the plain text
          refine absurd rfl (hx (codePoint '\\') ?_).1
          rw [hu]
          simp
        · -- the plain text starts inside the escape
          have hin : e ∈ codePoint '\\' :: rest := by
            rw [hu, hcons]
            simp
          refine absurd (hmark e (by rw [hcons]; rfl)) ?_
          rcases List.mem_cons.mp hin with rfl | hin
          · decide
          · exact hmarks e hin

/-- Where a part of a string stands in the text of its literal. -/
theorem literal_split {before behind a w b : Str} :
    before ++ quote (a ++ (w ++ b)) ++ behind =
      (before ++ codePoint '"' :: jsonSpelling a) ++
        (jsonSpelling w ++ (jsonSpelling b ++ codePoint '"' :: behind)) := by
  show before ++ (codePoint '"' :: jsonSpelling (a ++ (w ++ b)) ++ [codePoint '"']) ++ behind = _
  rw [jsonSpelling_append, jsonSpelling_append]
  simp

theorem boundary_behind {b behind : Str} (h : isBoundary b.head? = true) :
    isBoundary (jsonSpelling b ++ codePoint '"' :: behind).head? = true := by
  cases b with
  | nil =>
    show isBoundary (some (codePoint '"')) = true
    decide
  | cons d b =>
    rw [jsonSpelling_cons]
    rcases escapeChar_cases d with ⟨hplain, -⟩ | ⟨rest, hrest, -⟩
    · rw [hplain]
      exact h
    · rw [hrest]
      show isBoundary (some (codePoint '\\')) = true
      decide

section Report

variable {gate : PrivacyGate normcase} {text : Str}

/-- A string of the redacted text has no delimited name outside of placeholders. -/
theorem spelt_name (h : gate.Ordinary) (hname : SimpleName gate.username) (haccepted : Accepted text)
    (htouches : ¬EscapeTouches gate.homeVariants gate.username text) {s : Str}
    (hspelt : Spelt isMark (gate.redact text) s) {a b : Str}
    (hs : s = a ++ (gate.username ++ b)) (hdelimited : Delimited a b) :
    ∃ p ∈ placeholders, Inside p a gate.username b := by
  obtain ⟨before, behind, htext, hsettled⟩ := hspelt
  rw [hs, literal_split, hname.plain] at htext
  have hright : isBoundary (jsonSpelling b ++ codePoint '"' :: behind).head? = true :=
    boundary_behind hdelimited.2
  by_cases hleft : isBoundary (before ++ codePoint '"' :: jsonSpelling a).getLast? = true
  · obtain ⟨p, hp, x, y, hxy, hx, hy⟩ := redact_delimited h hname htext ⟨hleft, hright⟩
    have hplain := placeholder_is_plain hp
    rw [hxy] at hplain
    refine ⟨p, hp, x, y, hxy, plain_end a (fun c hc => hplain c (by simp [hc])) ?_ hx,
      plain_start (fun c hc => hplain c (by simp [hc])) hy⟩
    intro c hc
    obtain ⟨d, hd, hmark⟩ := (placeholder_fenced hp).head
    rw [hxy, List.append_assoc, List.head?_append, Option.mem_def.mp hc] at hd
    rw [Option.some.inj hd]
    exact hmark
  · -- the character before the name is one that an escape stands for
    refine absurd ?_ htouches
    rcases List.eq_nil_or_concat' a with rfl | ⟨front, c, rfl⟩
    · refine absurd ?_ hleft
      show isBoundary (before ++ [codePoint '"']).getLast? = true
      rw [List.getLast?_append]
      show isBoundary (some (codePoint '"')) = true
      decide
    · have hword : isWordChar c = false := by
        have hc := hdelimited.1
        rw [List.getLast?_append] at hc
        simpa [isBoundary] using hc
      have hspell : jsonSpelling (front ++ [c]) = jsonSpelling front ++ escapeChar c := by
        rw [jsonSpelling_append, jsonSpelling_cons]
        exact congrArg _ (List.append_nil _)
      have hne : escapeChar c ≠ [] := by
        rcases escapeChar_cases c with ⟨hplain, -⟩ | ⟨rest, hrest, -⟩
        · rw [hplain]
          exact List.cons_ne_nil _ _
        · rw [hrest]
          exact List.cons_ne_nil _ _
      have hlast : (before ++ codePoint '"' :: jsonSpelling (front ++ [c])).getLast? =
          (escapeChar c).getLast? := by
        rw [hspell, ← List.cons_append, ← List.append_assoc, List.getLast?_append]
        cases hl : (escapeChar c).getLast? with
        | none => exact absurd (List.getLast?_eq_none_iff.mp hl) hne
        | some d => rfl
      rw [hlast, Bool.not_eq_true] at hleft
      obtain ⟨rest, hrest, hmarks⟩ : ∃ rest, escapeChar c = codePoint '\\' :: rest ∧ Unmarked rest := by
        refine (escapeChar_cases c).resolve_left ?_
        rintro ⟨hplain, -⟩
        rw [hplain] at hleft
        simp [isBoundary, hword] at hleft
      have hunmarked : Unmarked (escapeChar c ++ gate.username) := by
        intro d hd
        rcases List.mem_append.mp hd with hd | hd
        · rw [hrest] at hd
          rcases List.mem_cons.mp hd with rfl | hd
          · decide
          · exact hmarks d hd
        · exact h.username_unmarked d hd
      have hforeign : Foreign (escapeChar c ++ gate.username) :=
        foreign_of_mem (Or.inr (by rw [hrest]; simp))
      have hout : gate.redact text = (before ++ codePoint '"' :: jsonSpelling front) ++
          ((escapeChar c ++ gate.username) ++ (jsonSpelling b ++ codePoint '"' :: behind)) := by
        rw [htext, hspell]
        simp
      obtain ⟨a₀, b₀, htext₀, hsettled₀, hopens⟩ :=
        (redact_traces h text).part _ (by simp [hne]) hunmarked hforeign _ _ hout
      have hplace : Settled isMark (before ++ codePoint '"' :: jsonSpelling front) := by
        have hmark : Settled isMark [codePoint '"'] := runAll_plain (by decide)
        exact hsettled.append (hmark.append (runAll_escaped isMark_spoils front))
      refine ⟨a₀, c, b₀, htext₀, hsettled₀ haccepted hplace (by rw [hrest]; rfl), hword, hleft,
        hopens ?_ (Or.inl hright)⟩
      intro d hd
      obtain ⟨e, he, hlastword⟩ := hname.last
      rw [List.getLast?_append, Option.mem_def.mp he] at hd
      cases hd
      exact hlastword

/-- A text that the redacted text does not spell is in none of its strings. -/
theorem absent_of_spelling {redacted w s a b : Str} (hspelt : Spelt isMark redacted s)
    (habsent : ¬jsonSpelling w <:+: redacted) : s ≠ a ++ (w ++ b) := by
  rintro rfl
  obtain ⟨before, behind, htext, -⟩ := hspelt
  rw [literal_split] at htext
  exact habsent ⟨_, _, by rw [htext, List.append_assoc]⟩

/-- A foreign text that the text does not hold is not in the redacted text. -/
theorem redact_absent (h : gate.Ordinary) {w : Str} (hne : w ≠ []) (hmarks : Unmarked w)
    (hforeign : Foreign w) (habsent : ¬w <:+: text) : ¬w <:+: gate.redact text := by
  rintro ⟨a', b', hout⟩
  rw [List.append_assoc] at hout
  obtain ⟨a, b, htext, -, -⟩ := (redact_traces h text).part w hne hmarks hforeign a' b' hout.symm
  exact habsent ⟨a, b, by rw [htext, List.append_assoc]⟩

theorem PrivacyGate.Ordinary.home_ne_nil (h : gate.Ordinary) : gate.home ≠ [] := by
  intro hnil
  have hpath := h.home_path
  rw [hnil] at hpath
  simp at hpath

/-- The strings of a redacted text are clean. -/
theorem spelt_clean (h : gate.Ordinary) (hsees : gate.Sees text) (haccepted : Accepted text)
    {s : Str} (hspelt : Spelt isMark (gate.redact text) s) : Clean gate s where
  home := by
    intro a b hs
    have hunmarked := h.variants_unmarked _ (PrivacyGate.Ordinary.home_mem gate)
    have habsent : ¬jsonSpelling gate.home <:+: gate.redact text := by
      rcases hsees.home with hplain | habsent
      · rw [hplain]
        exact redact_home_absent h h.home_ne_nil (foreign_of_mem h.home_path) text
      · exact redact_absent h (jsonSpelling_ne_nil h.home_ne_nil) (jsonSpelling_unmarked hunmarked)
          (jsonSpelling_foreign h.home_path) habsent
    exact absurd hs (absent_of_spelling hspelt habsent)
  username := by
    intro a b hs hdelimited
    rcases hsees.username with ⟨hname, htouches⟩ | ⟨hforeign, habsent⟩
    · exact spelt_name h hname haccepted htouches hspelt hs hdelimited
    · have habsent' := redact_absent h (jsonSpelling_ne_nil h.username_nonempty)
        (jsonSpelling_unmarked h.username_unmarked) hforeign habsent
      exact absurd hs (absent_of_spelling hspelt habsent')

end Report

/-- A text without escapes touches no name with one. -/
theorem not_escapeTouches {variants : List Str} {name text : Str}
    (h : codePoint '\\' ∉ text) : ¬EscapeTouches variants name text := by
  rintro ⟨before, c, behind, htext, -, hword, hlast, -⟩
  rcases escapeChar_cases c with ⟨hplain, -⟩ | ⟨rest, hrest, -⟩
  · rw [hplain] at hlast
    simp [isBoundary, hword] at hlast
  · refine h ?_
    rw [htext, hrest]
    simp

/-- What the gate makes of a report whose text it turns into the text of another. -/
theorem sanitizeReport_eq {rt : Runtime} {gate : PrivacyGate normcase} {report out : Json}
    (hdump : dumpError rt .plain 0 report = none)
    (hredact : gate.redact (dumpText rt .plain 0 report) = dumpText rt .plain 0 out)
    (hout : checkReadable rt.limits 0 out = true) :
    sanitizeReport rt gate (fun _ => .ok ()) report = .ok out := by
  have hpayload : dumps rt .plain report = .ok (dumpText rt .plain 0 report) :=
    dumps_of_no_error hdump
  have hdata : loads rt.limits (gate.redact (dumpText rt .plain 0 report)) = .ok out := by
    rw [hredact]
    exact loads_dumpText rt .plain (readable_of_check hout)
  exact bind_eq_ok.mpr ⟨_, hpayload, bind_eq_ok.mpr ⟨_, hdata, rfl⟩⟩

/-- The account `bob` on a POSIX system. -/
def bobGate : PrivacyGate id where
  home := "/home/bob"
  username := "bob"
  homeVariants := ["/home/bob", "\\home\\bob"]
  mem_homeVariants := by
    have hslashes : replaceChar (codePoint '\\') (codePoint '/') (lit "/home/bob") =
        lit "/home/bob" := by decide
    have hback : replaceChar (codePoint '/') (codePoint '\\') (lit "/home/bob") =
        lit "\\home\\bob" := by decide
    intro v
    rw [hslashes, hback, List.mem_cons, List.mem_singleton]
    constructor
    · rintro (h | h)
      · exact Or.inl h
      · exact Or.inr (Or.inr (Or.inl h))
    · rintro (h | h | h | h)
      · exact Or.inl h
      · exact Or.inl h
      · exact Or.inr h
      · exact Or.inl h
  nodup := by decide
  sorted := by decide

/-- A report with one finding. -/
def found (message : Str) : Json :=
  .obj [("findings", .arr [.obj [("message", .str message)]])]

end DevRepro.Privacy
