import DevRepro.Core.Ranges
import DevRepro.Core.SpecStable

/-!
# A printed range read again

The clauses of a printed range are found again, and they are the same but for the bare
`*`: it is printed as `*0`, which is the interval from `0.0.0` to `1.0.0`.
-/

namespace DevRepro.Core

open DevRepro.Python DevRepro.Lib

variable {limits : Limits}

/-! ## Whitespace around a text -/

/-- Texts that differ in whitespace around them. -/
def Around (s t : Str) : Prop :=
  ∃ before behind, (∀ c ∈ before, isSpace c = true) ∧ (∀ c ∈ behind, isSpace c = true) ∧
    s = before ++ t ++ behind

theorem Around.strip_eq {s t : Str} (h : Around s t) : strip s = strip t := by
  obtain ⟨before, behind, hbefore, hbehind, rfl⟩ := h
  exact strip_padded hbefore hbehind t

theorem parseSpecClause_of_strip {s t : Str} (h : strip s = strip t) :
    parseSpecClause limits s = parseSpecClause limits t := by
  unfold parseSpecClause
  rw [h]

theorem comma_not_space {s : Str} (h : ∀ c ∈ s, isSpace c = true) : codePoint ',' ∉ s := by
  intro hmem
  exact absurd (h _ hmem) (by decide)

/-- Whitespace behind a text is whitespace behind its last part. -/
theorem splitOn_behind {behind : Str} (h : ∀ c ∈ behind, isSpace c = true) (s : Str) :
    List.Forall₂ (fun p q => ∃ w, (∀ c ∈ w, isSpace c = true) ∧ p = q ++ w)
      ((s ++ behind).splitOn (codePoint ',')) (s.splitOn (codePoint ',')) := by
  induction s with
  | nil =>
    rw [List.nil_append, List.splitOn_eq_singleton (comma_not_space h)]
    exact .cons ⟨behind, h, rfl⟩ .nil
  | cons c s ih =>
    rw [List.cons_append, List.splitOn_cons_eq_if_modifyHead, List.splitOn_cons_eq_if_modifyHead]
    split_ifs
    · exact .cons ⟨[], by simp, rfl⟩ ih
    · obtain ⟨part, parts, hsplit⟩ := List.exists_cons_of_ne_nil (List.splitOn_ne_nil (codePoint ',') s)
      rw [hsplit] at ih ⊢
      obtain ⟨first, others, ⟨w, hw, rfl⟩, hrest, hfirst⟩ := List.forall₂_cons_right_iff.mp ih
      rw [hfirst]
      exact .cons ⟨w, hw, rfl⟩ hrest

/-- Whitespace before a text is whitespace before its first part. -/
theorem splitOn_before {before : Str} (h : ∀ c ∈ before, isSpace c = true) (s : Str) :
    ∃ part parts, s.splitOn (codePoint ',') = part :: parts ∧
      (before ++ s).splitOn (codePoint ',') = (before ++ part) :: parts := by
  obtain ⟨part, parts, hsplit⟩ := List.exists_cons_of_ne_nil (List.splitOn_ne_nil (codePoint ',') s)
  refine ⟨part, parts, hsplit, ?_⟩
  have hcomma := comma_not_space h
  clear h
  induction before with
  | nil => exact hsplit
  | cons c before ih =>
    rw [List.mem_cons, not_or] at hcomma
    have hc : (c == codePoint ',') = false := beq_eq_false_iff_ne.mpr (Ne.symm hcomma.1)
    rw [List.cons_append, List.splitOn_cons_eq_if_modifyHead, ih hcomma.2, hc]
    rfl

/-- Whitespace around a group does not count. -/
theorem parseGroup_around {s t : Str} (h : Around s t) :
    parseGroup limits s = parseGroup limits t := by
  obtain ⟨before, behind, hbefore, hbehind, rfl⟩ := h
  have hfront : ∀ u : Str, ((before ++ u).splitOn (codePoint ',')).mapM (parseSpecClause limits) =
      (u.splitOn (codePoint ',')).mapM (parseSpecClause limits) := by
    intro u
    obtain ⟨part, parts, hu, hwhole⟩ := splitOn_before hbefore u
    have hstrip := @strip_padded before [] hbefore (by simp) part
    rw [List.append_nil] at hstrip
    rw [hu, hwhole, List.mapM_cons, List.mapM_cons, parseSpecClause_of_strip hstrip]
  have hback : ∀ {l m : List Str},
      List.Forall₂ (fun p q => ∃ w, (∀ c ∈ w, isSpace c = true) ∧ p = q ++ w) l m →
        l.mapM (parseSpecClause limits) = m.mapM (parseSpecClause limits) := by
    intro l m hlm
    induction hlm with
    | nil => rfl
    | cons hfirst _ ih =>
      obtain ⟨w, hw, rfl⟩ := hfirst
      have hstrip : ∀ q : Str, strip (q ++ w) = strip q := fun q =>
        @strip_padded [] w (by simp) hw q
      rw [List.mapM_cons, List.mapM_cons, ih, parseSpecClause_of_strip (hstrip _)]
  unfold parseGroup
  rw [List.append_assoc, hfront, hback (splitOn_behind hbehind t)]

/-! ## Printed groups -/

theorem splitGroups_bars {s : Str} (h : codePoint '|' ∉ s) (rest : Str) :
    splitGroups (s ++ codePoint '|' :: codePoint '|' :: rest) = s :: splitGroups rest := by
  induction s with
  | nil => rw [List.nil_append, splitGroups, if_pos ⟨rfl, rfl⟩]
  | cons c s ih =>
    rw [List.mem_cons, not_or] at h
    obtain ⟨d, others, hcons⟩ : ∃ d others,
        s ++ codePoint '|' :: codePoint '|' :: rest = d :: others := by
      cases s with
      | nil => exact ⟨_, _, rfl⟩
      | cons d s => exact ⟨_, _, rfl⟩
    rw [List.cons_append, hcons, splitGroups, if_neg fun hbars => h.1 hbars.1.symm, ← hcons, ih h.2]

/-- The groups of a printed range are read one by one. -/
theorem groups_of_join {groups : List Str} (hne : groups ≠ [])
    (hbar : ∀ g ∈ groups, codePoint '|' ∉ g) :
    (splitGroups (join " || " groups)).mapM (parseGroup limits) =
      groups.mapM (parseGroup limits) := by
  have hspace : ∀ c ∈ lit " ", isSpace c = true := by
    intro c hc
    obtain rfl : c = codePoint ' ' := by simpa [lit] using hc
    decide
  have hpadded : ∀ before : Str, (∀ c ∈ before, isSpace c = true) → codePoint '|' ∉ before →
      (splitGroups (before ++ join " || " groups)).mapM (parseGroup limits) =
        groups.mapM (parseGroup limits) := by
    induction groups with
    | nil => exact absurd rfl hne
    | cons g groups ih =>
      intro before hbefore hnobar
      have hg := hbar g List.mem_cons_self
      cases groups with
      | nil =>
        have haround : Around (before ++ g) g := ⟨before, [], hbefore, by simp, by simp⟩
        have hone : codePoint '|' ∉ before ++ g := by
          rw [List.mem_append, not_or]
          exact ⟨hnobar, hg⟩
        show (splitGroups (before ++ g)).mapM _ = _
        rw [splitGroups_single hone, List.mapM_cons, List.mapM_cons, parseGroup_around haround]
      | cons next rest =>
        have haround : Around (before ++ g ++ lit " ") g := ⟨before, lit " ", hbefore, hspace, rfl⟩
        have hone : codePoint '|' ∉ before ++ g ++ lit " " := by
          rw [List.mem_append, List.mem_append, not_or, not_or]
          exact ⟨⟨hnobar, hg⟩, by decide⟩
        have htext : before ++ join " || " (g :: next :: rest) =
            (before ++ g ++ lit " ") ++
              codePoint '|' :: codePoint '|' :: (lit " " ++ join " || " (next :: rest)) := by
          show before ++ (g ++ lit " || " ++ join " || " (next :: rest)) = _
          simp [lit]
        rw [htext, splitGroups_bars hone, List.mapM_cons, List.mapM_cons, parseGroup_around haround,
          ih (List.cons_ne_nil _ _) (fun h hh => hbar h (List.mem_cons_of_mem _ hh)) (lit " ") hspace
            (by decide)]
  exact hpadded [] (by simp) (by simp)

/-! ## Reading what was printed -/

/-- What a printed clause is read as. -/
def readAgain (c : SpecClause) : List SpecClause :=
  if c = bareStar then
    [⟨">=", release [0, 0, 0], "0.0.0"⟩, ⟨"<", release [1, 0, 0], "1.0.0"⟩]
  else [c]

/-- A clause of a range: the bare `*`, or one that is read as itself. -/
def Printable (limits : Limits) (c : SpecClause) : Prop := c = bareStar ∨ Stable limits c

theorem bareStar_reads (rt : Runtime) :
    parseSpecClause rt.limits (bareStar.op ++ bareStar.raw) = some (readAgain bareStar) := by
  have hone : 1 ≤ rt.limits.intDigits := le_trans (by decide) rt.intDigits_ge
  have hparts : clauseTextParts (lit "*0") = some (lit "*", lit "0") := by decide +kernel
  have hthree : threeParts (lit "0") = (lit "0", none, none) := threeParts_one zero_isNumber
  have hlen : (lit "0").length = 1 := rfl
  have honeNumber : IsNumber (lit "1") := by decide
  have hdigits : digitsOf rt.limits (lit "0") = some 0 := by
    rw [digitsOf_some zero_isNumber (by rw [hlen]; exact hone), numberOf_zero]
  have htext : ∀ n, (natStr n).length = 1 → numberText rt.limits n = some (natStr n) := by
    intro n hn
    unfold numberText fitsDigits
    rw [if_pos]
    rw [decide_eq_true_iff]
    exact hn.trans_le hone
  have hread : ∀ op a, IsNumber a → a.length = 1 →
      specClause rt.limits op (a ++ lit "." ++ lit "0" ++ lit "." ++ lit "0") =
        some [⟨op, release [numberOf a, 0, 0], a ++ lit ".0.0"⟩] := by
    intro op a ha hlena
    rw [specClause_three op ha zero_isNumber zero_isNumber
      ⟨hlena.trans_le hone, hlen.trans_le hone, hlen.trans_le hone⟩, numberOf_zero]
    simp [lit]
  have hlow : lowerClauses rt.limits 0 none = some [⟨">=", release [0, 0, 0], "0.0.0"⟩] := by
    rw [lowerClauses, htext 0 rfl]
    exact hread ">=" (lit "0") zero_isNumber rfl
  have hhigh : upperClauses rt.limits 0 = some [⟨"<", release [1, 0, 0], "1.0.0"⟩] := by
    rw [upperClauses, htext 1 rfl]
    exact hread "<" (lit "1") honeNumber rfl
  have hstrip : strip (bareStar.op ++ bareStar.raw) = lit "*0" := by decide
  unfold parseSpecClause
  dsimp only
  rw [hstrip, if_neg (by decide), if_neg (by decide), hparts]
  show partialSpecClauses rt.limits (lit "*") (lit "0") = _
  rw [partialSpecClauses_eq, hthree, if_neg zero_isNumber.1, hdigits, Option.bind_some, if_neg (by decide), if_neg (by decide),
    if_neg (by decide), if_pos (by decide), hlow, hhigh]
  rfl

theorem printable_reads (rt : Runtime) {c : SpecClause} (h : Printable rt.limits c) :
    parseSpecClause rt.limits (c.op ++ c.raw) = some (readAgain c) := by
  by_cases hstar : c = bareStar
  · rw [hstar]
    exact bareStar_reads rt
  · rw [readAgain, if_neg hstar]
    exact (h.resolve_left hstar).reads

theorem printable_chars {c : SpecClause} (h : Printable limits c) :
    ∀ d ∈ c.op ++ c.raw, d ≠ codePoint '|' ∧ d ≠ codePoint ',' := by
  rcases h with rfl | h
  · intro d hd
    have htext : bareStar.op ++ bareStar.raw = [codePoint '*', codePoint '0'] := by decide
    rw [htext] at hd
    rcases List.mem_cons.mp hd with rfl | hd
    · decide
    · obtain rfl := List.mem_singleton.mp hd
      decide
  · exact h.chars

theorem readAgain_ne_nil (c : SpecClause) : readAgain c ≠ [] := by
  unfold readAgain
  split_ifs <;> exact List.cons_ne_nil _ _

/-- `",".join(…)` of one group. -/
def groupText (group : List SpecClause) : Str := join "," (group.map fun c => c.op ++ c.raw)

theorem parseGroup_text (rt : Runtime) {group : List SpecClause} (hne : group ≠ [])
    (h : ∀ c ∈ group, Printable rt.limits c) :
    parseGroup rt.limits (groupText group) = some (group.flatMap readAgain) := by
  have hsplit : (groupText group).splitOn (codePoint ',') = group.map fun c => c.op ++ c.raw := by
    rw [groupText, join_eq_intercalate]
    refine List.splitOn_intercalate _ (fun text htext hcomma => ?_) (by simpa using hne)
    obtain ⟨c, hc, rfl⟩ := List.mem_map.mp htext
    exact (printable_chars (h c hc) _ hcomma).2 rfl
  have hmapM : (group.map fun c => c.op ++ c.raw).mapM (parseSpecClause rt.limits) =
      some (group.map readAgain) := by
    rw [mapM_eq_some, List.forall₂_map_left_iff, List.forall₂_map_right_iff, List.forall₂_same]
    exact fun c hc => printable_reads rt (h c hc)
  unfold parseGroup
  rw [hsplit, hmapM, List.flatMap_def]
  rfl

theorem groupText_no_bar {group : List SpecClause} (h : ∀ c ∈ group, Printable limits c) :
    codePoint '|' ∉ groupText group := by
  intro hbar
  rcases mem_join hbar with hbar | ⟨text, htext, hbar⟩
  · exact absurd hbar (by decide)
  · obtain ⟨c, hc, rfl⟩ := List.mem_map.mp htext
    exact (printable_chars (h c hc) _ hbar).1 rfl

/-- A printed range is read with each clause as what it is read as again. -/
theorem parseSpecSet_text (rt : Runtime) {groups : List (List SpecClause)} (hne : groups ≠ [])
    (hgroups : ∀ group ∈ groups, group ≠ [])
    (h : ∀ group ∈ groups, ∀ c ∈ group, Printable rt.limits c) :
    parseSpecSet rt.limits (specText groups) = some (groups.map (·.flatMap readAgain)) := by
  have hread : (splitGroups (specText groups)).mapM (parseGroup rt.limits) =
      some (groups.map (·.flatMap readAgain)) := by
    have hjoin := @groups_of_join rt.limits (groups.map groupText) (by simpa using hne) (by
      intro text htext
      obtain ⟨group, hgroup, rfl⟩ := List.mem_map.mp htext
      exact groupText_no_bar (h group hgroup))
    show (splitGroups (join " || " (groups.map groupText))).mapM (parseGroup rt.limits) = _
    rw [hjoin, mapM_eq_some, List.forall₂_map_left_iff, List.forall₂_map_right_iff, List.forall₂_same]
    exact fun group hgroup => parseGroup_text rt (hgroups group hgroup) (h group hgroup)
  have hkeep : (groups.map (·.flatMap readAgain)).filter (fun group => group != []) =
      groups.map (·.flatMap readAgain) := by
    rw [List.filter_eq_self]
    intro group hgroup
    obtain ⟨before, hbefore, rfl⟩ := List.mem_map.mp hgroup
    obtain ⟨c, rest, hcons⟩ := List.exists_cons_of_ne_nil (hgroups before hbefore)
    simp [hcons, readAgain_ne_nil]
  unfold parseSpecSet
  rw [hread]
  show some _ = some _
  rw [hkeep, if_neg (by simpa using hne)]

/-! ## The clauses of an accepted range -/

/-- The clauses of a group that are not blank. -/
def nonblank (raw : Str) : List Str :=
  ((raw.splitOn (codePoint ',')).map strip).filter fun text => text != []

/-- The alternatives of a range, as lists of clauses; without any it is `*`. -/
def alternatives (spec : Str) : List (List Str) :=
  let groups := ((splitGroups spec).map nonblank).filter fun texts => texts != []
  if groups = [] then [["*"]] else groups

theorem clauseTextParts_stripped {raw op version : Str}
    (h : clauseTextParts (strip raw) = some (op, version)) : strip version = version := by
  refine @clauseParts_stripped raw version (opOf op) ?_
  rw [clauseParts_meaning, h]
  rfl

theorem parseSpecClause_cases {raw : Str} {clauses : List SpecClause}
    (h : parseSpecClause limits raw = some clauses) :
    strip raw = [] ∧ clauses = [] ∨ strip raw = lit "*" ∧ clauses = [bareStar] ∨
      strip raw ≠ lit "*" ∧ Kept limits clauses := by
  unfold parseSpecClause at h
  dsimp only at h
  split_ifs at h with hnil hstar
  · exact Or.inl ⟨hnil, (Option.some_inj.mp h).symm⟩
  · exact Or.inr (Or.inl ⟨hstar, (Option.some_inj.mp h).symm⟩)
  · obtain ⟨⟨op, version⟩, hparts, hpartial⟩ := Option.bind_eq_some_iff.mp h
    exact Or.inr (Or.inr ⟨hstar, kept_partial (clauseTextParts_operator hparts)
      (clauseTextParts_stripped hparts) hpartial⟩)

/-- The clauses of a group are those of the texts of an alternative. -/
structure Reads (limits : Limits) (texts : List Str) (group : List SpecClause) : Prop where
  stripped : ∀ t ∈ texts, strip t = t ∧ t ≠ []
  accepted : ∀ t ∈ texts, ∃ clauses, parseSpecClause limits t = some clauses
  mem : ∀ c, c ∈ group ↔ ∃ t ∈ texts, ∃ clauses, parseSpecClause limits t = some clauses ∧ c ∈ clauses

section Reads

variable {texts : List Str} {group : List SpecClause}

theorem Reads.star (h : Reads limits texts group) : bareStar ∈ group ↔ lit "*" ∈ texts := by
  rw [h.mem]
  constructor
  · rintro ⟨t, ht, clauses, hparse, hstar⟩
    rcases parseSpecClause_cases hparse with ⟨-, rfl⟩ | ⟨htext, -⟩ | ⟨-, hkept⟩
    · cases hstar
    · rwa [← htext, (h.stripped t ht).1]
    · exact absurd hstar hkept.no_star
  · intro hmem
    exact ⟨_, hmem, [bareStar], by rfl, List.mem_cons_self⟩

theorem Reads.printable (h : Reads limits texts group) : ∀ c ∈ group, Printable limits c := by
  intro c hc
  obtain ⟨t, ht, clauses, hparse, hmem⟩ := (h.mem c).mp hc
  rcases parseSpecClause_cases hparse with ⟨-, rfl⟩ | ⟨-, rfl⟩ | ⟨-, hkept⟩
  · cases hmem
  · exact Or.inl (List.mem_singleton.mp hmem)
  · exact Or.inr (hkept.stable c hmem)

/-- The text of a clause that is not blank gives a clause. -/
theorem parseSpecClause_ne_nil {raw : Str} {clauses : List SpecClause}
    (h : parseSpecClause limits raw = some clauses) : clauses = [] ↔ strip raw = [] := by
  rcases parseSpecClause_cases h with ⟨hnil, rfl⟩ | ⟨hstar, rfl⟩ | ⟨-, hkept⟩
  · exact iff_of_true rfl hnil
  · refine iff_of_false (List.cons_ne_nil _ _) ?_
    rw [hstar]
    decide
  · refine iff_of_false hkept.ne_nil fun hnil => hkept.ne_nil ?_
    unfold parseSpecClause at h
    rw [hnil] at h
    exact (Option.some_inj.mp h).symm

theorem Reads.ne_nil (h : Reads limits texts group) : group = [] ↔ texts = [] := by
  constructor
  · intro hgroup
    by_contra hne
    obtain ⟨t, rest, rfl⟩ := List.exists_cons_of_ne_nil hne
    obtain ⟨hstrip, htext⟩ := h.stripped t List.mem_cons_self
    obtain ⟨clauses, hparse⟩ := h.accepted t List.mem_cons_self
    have hclauses : clauses ≠ [] := by
      rw [ne_eq, parseSpecClause_ne_nil hparse, hstrip]
      exact htext
    obtain ⟨c, others, rfl⟩ := List.exists_cons_of_ne_nil hclauses
    have hc := (h.mem c).mpr ⟨t, List.mem_cons_self, _, hparse, List.mem_cons_self⟩
    rw [hgroup] at hc
    cases hc
  · rintro rfl
    refine List.eq_nil_iff_forall_not_mem.mpr fun c hc => ?_
    obtain ⟨t, ht, -⟩ := (h.mem c).mp hc
    cases ht

end Reads

theorem strip_idem (s : Str) : strip (strip s) = strip s := stripChars_idem s

theorem parseGroup_reads {raw : Str} {group : List SpecClause}
    (h : parseGroup limits raw = some group) : Reads limits (nonblank raw) group := by
  unfold parseGroup at h
  obtain ⟨parsed, hparsed, hflat⟩ := Option.bind_eq_some_iff.mp h
  obtain rfl := Option.some_inj.mp hflat
  have hagain : ∀ clause : Str, parseSpecClause limits (strip clause) = parseSpecClause limits clause :=
    fun clause => parseSpecClause_of_strip (strip_idem clause)
  unfold nonblank
  constructor
  · intro t ht
    obtain ⟨hmem, hne⟩ := List.mem_filter.mp ht
    obtain ⟨clause, -, rfl⟩ := List.mem_map.mp hmem
    exact ⟨strip_idem clause, by simpa using hne⟩
  · intro t ht
    obtain ⟨clause, hclause, rfl⟩ := List.mem_map.mp (List.mem_filter.mp ht).1
    obtain ⟨clauses, -, hparse⟩ := exists_of_mapM hparsed hclause
    exact ⟨clauses, (hagain clause).trans hparse⟩
  · intro c
    rw [List.mem_flatten]
    constructor
    · rintro ⟨clauses, hmem, hc⟩
      obtain ⟨clause, hclause, hparse⟩ := exists_of_mem_mapM hparsed hmem
      have hne : strip clause ≠ [] := by
        rw [ne_eq, ← parseSpecClause_ne_nil hparse]
        rintro rfl
        cases hc
      exact ⟨strip clause, List.mem_filter.mpr ⟨List.mem_map_of_mem hclause, by simpa using hne⟩,
        clauses, (hagain clause).trans hparse, hc⟩
    · rintro ⟨t, ht, clauses, hparse, hc⟩
      obtain ⟨clause, hclause, rfl⟩ := List.mem_map.mp (List.mem_filter.mp ht).1
      obtain ⟨others, hmem, hothers⟩ := exists_of_mapM hparsed hclause
      obtain rfl := Option.some_inj.mp (hothers.symm.trans ((hagain clause).symm.trans hparse))
      exact ⟨_, hmem, hc⟩

theorem star_reads : Reads limits [lit "*"] [bareStar] := by
  have hparse : parseSpecClause limits (lit "*") = some [bareStar] := rfl
  constructor
  · intro t ht
    obtain rfl := List.mem_singleton.mp ht
    decide
  · intro t ht
    obtain rfl := List.mem_singleton.mp ht
    exact ⟨_, hparse⟩
  · intro c
    simp [hparse]

/-- The groups of an accepted range are those of its alternatives. -/
theorem parseSpecSet_reads {spec : Str} {groups : List (List SpecClause)}
    (h : parseSpecSet limits spec = some groups) :
    (∀ group ∈ groups, ∃ texts ∈ alternatives spec, Reads limits texts group) ∧
      ∀ texts ∈ alternatives spec, ∃ group ∈ groups, Reads limits texts group := by
  unfold parseSpecSet at h
  obtain ⟨parsed, hparsed, hgroups⟩ := Option.bind_eq_some_iff.mp h
  have hforward : ∀ group ∈ parsed, group ≠ [] → ∃ texts ∈ (splitGroups spec).map nonblank,
      texts ≠ [] ∧ Reads limits texts group := by
    intro group hgroup hne
    obtain ⟨raw, hraw, hparse⟩ := exists_of_mem_mapM hparsed hgroup
    have hreads := parseGroup_reads hparse
    exact ⟨_, List.mem_map_of_mem hraw, fun hnil => hne (hreads.ne_nil.mpr hnil), hreads⟩
  have hbackward : ∀ texts ∈ (splitGroups spec).map nonblank, texts ≠ [] →
      ∃ group ∈ parsed, group ≠ [] ∧ Reads limits texts group := by
    intro texts htexts hne
    obtain ⟨raw, hraw, rfl⟩ := List.mem_map.mp htexts
    obtain ⟨group, hmem, hparse⟩ := exists_of_mapM hparsed hraw
    have hreads := parseGroup_reads hparse
    exact ⟨group, hmem, fun hnil => hne (hreads.ne_nil.mp hnil), hreads⟩
  have hempty : ((splitGroups spec).map nonblank).filter (fun texts => texts != []) = [] ↔
      parsed.filter (fun group => group != []) = [] := by
    simp only [List.filter_eq_nil_iff, bne_iff_ne, ne_eq, not_not]
    constructor
    · intro hnil group hgroup
      by_contra hne
      obtain ⟨texts, htexts, htextne, -⟩ := hforward group hgroup hne
      exact htextne (hnil texts htexts)
    · intro hnil texts htexts
      by_contra hne
      obtain ⟨group, hgroup, hgroupne, -⟩ := hbackward texts htexts hne
      exact hgroupne (hnil group hgroup)
  obtain rfl := Option.some_inj.mp hgroups
  unfold alternatives
  dsimp only
  by_cases hnil : parsed.filter (fun group => group != []) = []
  · rw [if_pos hnil, if_pos (hempty.mpr hnil)]
    exact ⟨fun group hgroup => ⟨_, List.mem_cons_self, List.mem_singleton.mp hgroup ▸ star_reads⟩,
      fun texts htexts => ⟨_, List.mem_cons_self, List.mem_singleton.mp htexts ▸ star_reads⟩⟩
  · rw [if_neg hnil, if_neg fun hall => hnil (hempty.mp hall)]
    constructor
    · intro group hgroup
      obtain ⟨hmem, hne⟩ := List.mem_filter.mp hgroup
      obtain ⟨texts, htexts, htextne, hreads⟩ := hforward group hmem (by simpa using hne)
      exact ⟨texts, List.mem_filter.mpr ⟨htexts, by simpa using htextne⟩, hreads⟩
    · intro texts htexts
      obtain ⟨hmem, hne⟩ := List.mem_filter.mp htexts
      obtain ⟨group, hgroup, hgroupne, hreads⟩ := hbackward texts hmem (by simpa using hne)
      exact ⟨group, List.mem_filter.mpr ⟨hgroup, by simpa using hgroupne⟩, hreads⟩

theorem alternatives_ne_nil (spec : Str) : ∀ texts ∈ alternatives spec, texts ≠ [] := by
  unfold alternatives
  dsimp only
  split_ifs
  · intro texts htexts
    rw [List.mem_singleton.mp htexts]
    exact List.cons_ne_nil _ _
  · intro texts htexts
    simpa using (List.mem_filter.mp htexts).2

theorem parseSpecSet_ne_nil {spec : Str} {groups : List (List SpecClause)}
    (h : parseSpecSet limits spec = some groups) : groups ≠ [] := by
  unfold parseSpecSet at h
  obtain ⟨parsed, -, hgroups⟩ := Option.bind_eq_some_iff.mp h
  obtain rfl := Option.some_inj.mp hgroups
  split_ifs with hnil
  · exact List.cons_ne_nil _ _
  · exact hnil

/-! ## The same versions -/

/-- The range of the printed text takes the same versions. -/
def RoundTrips (limits : Limits) (groups : List (List SpecClause)) : Prop :=
  ∃ again, parseSpecSet limits (specText groups) = some again ∧
    ∀ text candidate, parseVersion limits text = some candidate →
      setSatisfied again candidate = setSatisfied groups candidate

/-- A version from `0.0.0` on and before `1.0.0`. -/
def InZeroMajor (candidate : Version) : Prop :=
  place (release [0, 0, 0]) ≤ place candidate ∧ place candidate < place (release [1, 0, 0])

/-- Every clause of an alternative takes a version. -/
def Takes (limits : Limits) (candidate : Version) (texts : List Str) : Prop :=
  ∀ t ∈ texts, ∀ clauses, parseClause limits t = some clauses →
    ∀ clause ∈ clauses, satisfiedBy candidate clause = true

/-- Outside the interval that `*0` stands for, what an alternative with a bare `*` takes is
taken by one without. -/
def StarIsCovered (limits : Limits) (spec : Str) : Prop :=
  ∀ text candidate, parseVersion limits text = some candidate → ¬InZeroMajor candidate →
    ∀ texts ∈ alternatives spec, lit "*" ∈ texts → Takes limits candidate texts →
      ∃ others ∈ alternatives spec, lit "*" ∉ others ∧ Takes limits candidate others

theorem Reads.takes {texts : List Str} {group : List SpecClause} (h : Reads limits texts group)
    (candidate : Version) :
    Takes limits candidate texts ↔ ∀ c ∈ group, satisfiedBy candidate c.meaning = true := by
  constructor
  · intro htakes c hc
    obtain ⟨t, ht, clauses, hparse, hmem⟩ := (h.mem c).mp hc
    refine htakes t ht (clauses.map SpecClause.meaning) ?_ c.meaning (List.mem_map_of_mem hmem)
    rw [parseClause_meaning, hparse]
    rfl
  · intro hall t ht meanings hparse clause hclause
    obtain ⟨clauses, hclauses⟩ := h.accepted t ht
    rw [parseClause_meaning, hclauses] at hparse
    obtain rfl := Option.some_inj.mp hparse
    obtain ⟨c, hc, rfl⟩ := List.mem_map.mp hclause
    exact hall c ((h.mem c).mpr ⟨t, ht, clauses, hclauses, hc⟩)

theorem setSatisfied_iff {groups : List (List SpecClause)} {candidate : Version} :
    setSatisfied groups candidate = true ↔
      ∃ group ∈ groups, ∀ c ∈ group, satisfiedBy candidate c.meaning = true := by
  simp [setSatisfied]

/-- The clauses that are read again take a version where the printed one does, and for the
bare `*` where the version is in its interval. -/
theorem readAgain_satisfied (c : SpecClause) (candidate : Version) :
    (∀ d ∈ readAgain c, satisfiedBy candidate d.meaning = true) ↔
      satisfiedBy candidate c.meaning = true ∧ (c = bareStar → InZeroMajor candidate) := by
  unfold readAgain
  split_ifs with hstar
  · have hge : opOf ">=" = some .ge := by decide
    have hlt : opOf "<" = some .lt := by decide
    have hany : satisfiedBy candidate bareStar.meaning = true := rfl
    rw [hstar, hany]
    simp [SpecClause.meaning, hge, hlt, satisfiedBy_iff, InZeroMajor]
  · simp [hstar]

theorem setSatisfied_again {groups : List (List SpecClause)} {candidate : Version} :
    setSatisfied (groups.map (·.flatMap readAgain)) candidate = true ↔
      ∃ group ∈ groups, (∀ c ∈ group, satisfiedBy candidate c.meaning = true) ∧
        (bareStar ∈ group → InZeroMajor candidate) := by
  rw [setSatisfied_iff]
  have hgroup : ∀ group : List SpecClause,
      (∀ d ∈ group.flatMap readAgain, satisfiedBy candidate d.meaning = true) ↔
        (∀ c ∈ group, satisfiedBy candidate c.meaning = true) ∧
          (bareStar ∈ group → InZeroMajor candidate) := by
    intro group
    constructor
    · intro h
      have hone := fun c hc => (readAgain_satisfied c candidate).mp fun d hd =>
        h d (List.mem_flatMap.mpr ⟨c, hc, hd⟩)
      exact ⟨fun c hc => (hone c hc).1, fun hstar => (hone bareStar hstar).2 rfl⟩
    · rintro ⟨hall, hzero⟩ d hd
      obtain ⟨c, hc, hd⟩ := List.mem_flatMap.mp hd
      exact (readAgain_satisfied c candidate).mpr
        ⟨hall c hc, fun heq => hzero (heq ▸ hc)⟩ d hd
  constructor
  · rintro ⟨again, hmem, h⟩
    obtain ⟨group, hin, rfl⟩ := List.mem_map.mp hmem
    exact ⟨group, hin, (hgroup group).mp h⟩
  · rintro ⟨group, hin, h⟩
    exact ⟨_, List.mem_map_of_mem hin, (hgroup group).mpr h⟩

/-- Where a printed range takes the same versions: what a bare `*` lets in outside the
interval from `0.0.0` to `1.0.0` comes in without it as well. -/
theorem roundTrips_iff (rt : Runtime) {spec : Str} {groups : List (List SpecClause)}
    (h : parseSpecSet rt.limits spec = some groups) :
    RoundTrips rt.limits groups ↔ StarIsCovered rt.limits spec := by
  obtain ⟨htexts, hgroups⟩ := parseSpecSet_reads h
  have hprintable : ∀ group ∈ groups, ∀ c ∈ group, Printable rt.limits c := by
    intro group hgroup
    obtain ⟨texts, -, hreads⟩ := htexts group hgroup
    exact hreads.printable
  have hne : ∀ group ∈ groups, group ≠ [] := by
    intro group hgroup hnil
    obtain ⟨texts, hmem, hreads⟩ := htexts group hgroup
    exact alternatives_ne_nil spec texts hmem (hreads.ne_nil.mp hnil)
  have hagain := parseSpecSet_text rt (parseSpecSet_ne_nil h) hne hprintable
  unfold RoundTrips StarIsCovered
  constructor
  · rintro ⟨again, hparse, hsame⟩ text candidate hcandidate hzero texts hmem hstar htakes
    obtain rfl := Option.some_inj.mp (hagain.symm.trans hparse)
    obtain ⟨group, hgroup, hreads⟩ := hgroups texts hmem
    have htaken := setSatisfied_iff.mpr ⟨group, hgroup, (hreads.takes candidate).mp htakes⟩
    rw [← hsame text candidate hcandidate, setSatisfied_again] at htaken
    obtain ⟨other, hother, hall, hnostar⟩ := htaken
    obtain ⟨others, hothers, hreads⟩ := htexts other hother
    exact ⟨others, hothers, fun hin => hzero (hnostar (hreads.star.mpr hin)),
      (hreads.takes candidate).mpr hall⟩
  · intro hcovered
    refine ⟨_, hagain, fun text candidate hcandidate => ?_⟩
    rw [Bool.eq_iff_iff, setSatisfied_again, setSatisfied_iff]
    constructor
    · rintro ⟨group, hgroup, hall, -⟩
      exact ⟨group, hgroup, hall⟩
    · rintro ⟨group, hgroup, hall⟩
      by_cases hzero : InZeroMajor candidate
      · exact ⟨group, hgroup, hall, fun _ => hzero⟩
      · by_cases hstar : bareStar ∈ group
        · obtain ⟨texts, hmem, hreads⟩ := htexts group hgroup
          obtain ⟨others, hothers, hnostar, htakes⟩ := hcovered text candidate hcandidate hzero texts
            hmem (hreads.star.mp hstar) ((hreads.takes candidate).mpr hall)
          obtain ⟨other, hother, hreads⟩ := hgroups others hothers
          exact ⟨other, hother, (hreads.takes candidate).mp htakes,
            fun hin => absurd (hreads.star.mp hin) hnostar⟩
        · exact ⟨group, hgroup, hall, fun hin => absurd hin hstar⟩

theorem roundTrips_alternatives :
    ∃ groups, parseSpecSet Runtime.standard.limits ">=3.11,<3.14 || 18" = some groups ∧
      RoundTrips Runtime.standard.limits groups := by
  have haccepted : (parseSpecSet Runtime.standard.limits ">=3.11,<3.14 || 18").isSome = true := by
    decide +kernel
  obtain ⟨groups, h⟩ := Option.isSome_iff_exists.mp haccepted
  refine ⟨groups, h, (roundTrips_iff Runtime.standard h).mpr ?_⟩
  have hnostar : ∀ texts ∈ alternatives ">=3.11,<3.14 || 18", lit "*" ∉ texts := by decide +kernel
  exact fun _ _ _ _ texts hmem hstar => absurd hstar (hnostar texts hmem)

/-- `*` is printed as `*0`, which does not take `18.0.0`. -/
theorem star_narrows :
    ∃ groups again candidate, parseSpecSet Runtime.standard.limits "*" = some groups ∧
      specText groups = lit "*0" ∧ parseSpecSet Runtime.standard.limits "*0" = some again ∧
      parseVersion Runtime.standard.limits "18.0.0" = some candidate ∧
      setSatisfied groups candidate = true ∧ setSatisfied again candidate = false ∧
      ¬RoundTrips Runtime.standard.limits groups := by
  have hagain : parseSpecSet Runtime.standard.limits "*0" = some [readAgain bareStar] := by
    decide +kernel
  have hcandidate : parseVersion Runtime.standard.limits "18.0.0" = some (release [18, 0, 0]) := by
    decide +kernel
  have hbefore : setSatisfied [[bareStar]] (release [18, 0, 0]) = true := by decide
  have hafter : setSatisfied [readAgain bareStar] (release [18, 0, 0]) = false := by decide +kernel
  refine ⟨[[bareStar]], [readAgain bareStar], _, by decide +kernel, by decide, hagain, hcandidate,
    hbefore, hafter, ?_⟩
  rintro ⟨again, hparse, hsame⟩
  have htext : specText [[bareStar]] = lit "*0" := by decide
  rw [htext, hagain] at hparse
  obtain rfl := Option.some_inj.mp hparse
  have heq := hsame _ _ hcandidate
  rw [hbefore, hafter] at heq
  cases heq

end DevRepro.Core
