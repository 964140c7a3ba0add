import DevRepro.Project.NativeDependencies
import DevRepro.Project.TomlLayout

/-!
# Native dependencies of a project

What the search of `native_dependencies` sees in a `pyproject.toml`, whatever its layout: a bare key
at the start of an entry, and the lines of strings of several lines (`seen_document`).
`native_found_iff` says for which files that is what they declare.
-/

namespace DevRepro.Project

open DevRepro.Python DevRepro.Lib

variable {n : Str}

/-! ## Words that are no name -/

theorem newline_not_spaces (sp : Spaces) : codePoint '\n' ∉ sp.val := by
  intro hmem
  have hspace := sp.property _ hmem
  exact absurd hspace (by decide)

theorem isSpace_of_isTomlSpace {c : CodePoint} (h : isTomlSpace c = true) : isSpace c = true := by
  rw [isTomlSpace, Bool.or_eq_true, beq_iff_eq, beq_iff_eq] at h
  rcases h with rfl | rfl <;> decide

theorem matchesName_spaces (sp : Spaces) (s : Str) : matchesName n (sp.val ++ s) = matchesName n s :=
  matchesName_blanks (fun c hc => isSpace_of_isTomlSpace (sp.property c hc)) n s

/-- A text that begins with no character of a name does not match. -/
theorem matchesName_mark (hn : BareKey n) {c : CodePoint} (hspace : isSpace c = false)
    (hbare : isBareKeyChar c = false) (s : Str) : matchesName n (c :: s) = false := by
  refine matchesName_of_not_start hspace ?_
  obtain ⟨d, rest, rfl⟩ := List.exists_cons_of_ne_nil hn.1
  rw [← Bool.not_eq_true, startsWith, List.isPrefixOf_iff_prefix, List.cons_prefix_cons]
  rintro ⟨rfl, -⟩
  rw [hn.2 d List.mem_cons_self] at hbare
  cases hbare

theorem isTomlQuote_plain {c : CodePoint} (h : isTomlQuote c = true) :
    isSpace c = false ∧ isBareKeyChar c = false ∧ c ≠ codePoint '\n' := by
  rw [isTomlQuote, Bool.or_eq_true, beq_iff_eq, beq_iff_eq] at h
  rcases h with rfl | rfl <;> decide

theorem cons_of_head {s : Str} {p : CodePoint → Bool} (h : s.head?.any p = true) :
    ∃ c rest, s = c :: rest ∧ p c = true := by
  cases s with
  | nil => cases h
  | cons c rest => exact ⟨c, rest, rfl, h⟩

theorem Quoted.no_match (hn : BareKey n) (q : Quoted) (t : Str) : matchesName n (q.text ++ t) = false := by
  obtain ⟨c, rest, htext, hquote⟩ := cons_of_head q.quote
  obtain ⟨hspace, hbare, -⟩ := isTomlQuote_plain hquote
  rw [htext]
  exact matchesName_mark hn hspace hbare _

theorem Multi.isTomlQuote_mark (m : Multi) : isTomlQuote m.mark = true := by
  rw [mark]
  split <;> decide

/-- Of two texts none of which begins with the other, none does whatever is behind them. -/
theorem startsWith_append_apart {s : Str} (hname : n.isPrefixOf s = false) (hword : s.isPrefixOf n = false)
    (t : Str) : startsWith (s ++ t) n = false := by
  rw [← Bool.not_eq_true, startsWith, List.isPrefixOf_iff_prefix]
  intro hstart
  rcases List.prefix_or_prefix_of_prefix hstart (List.prefix_append s t) with h | h
  · rw [ List.isPrefixOf_iff_prefix.mpr h] at hname
    cases hname
  · rw [ List.isPrefixOf_iff_prefix.mpr h] at hword
    cases hword

theorem scalar_words : (nativeNames.all fun name =>
    [lit "true", lit "false", lit "inf", lit "nan"].all fun word =>
      !name.isPrefixOf word && !word.isPrefixOf name && word.head?.any fun c => !isSpace c) = true := by
  decide +kernel

theorem scalar_heads : ((lit "+-0123456789").all fun c =>
    !isSpace c && nativeNames.all fun name => decide (name.head? ≠ some c)) = true := by
  decide +kernel

/-- No value that is a word begins like a package of the table. -/
theorem Scalar.no_match (hn : n ∈ nativeNames) (s : Scalar) (t : Str) :
    matchesName n (s.text ++ t) = false := by
  rcases s.word with hword | hhead
  · have hrow := List.all_eq_true.mp (List.all_eq_true.mp scalar_words n hn) s.text hword
    rw [Bool.and_eq_true, Bool.and_eq_true, Bool.not_eq_true', Bool.not_eq_true'] at hrow
    obtain ⟨⟨hname, hapart⟩, hhead⟩ := hrow
    have hstart := startsWith_append_apart hname hapart t
    obtain ⟨c, rest, htext, hc⟩ := cons_of_head hhead
    rw [htext] at hstart ⊢
    exact matchesName_of_not_start ((Bool.not_eq_true' _).mp hc) hstart
  · obtain ⟨c, rest, htext, hc⟩ := cons_of_head hhead
    have hrow := List.all_eq_true.mp scalar_heads c (of_decide_eq_true hc)
    rw [Bool.and_eq_true, Bool.not_eq_true'] at hrow
    have hname : n.head? ≠ some c := of_decide_eq_true (List.all_eq_true.mp hrow.2 n hn)
    rw [htext]
    refine matchesName_of_not_start hrow.1 ?_
    obtain ⟨d, name, rfl⟩ := List.exists_cons_of_ne_nil (nativeNames_bare n hn).1
    rw [← Bool.not_eq_true, startsWith, List.isPrefixOf_iff_prefix]
    rintro ⟨tail, htail⟩
    exact hname (congrArg some (List.cons.inj htail).1)

/-- What is behind a character that ends a name does not matter. -/
theorem matchesName_stop {d : CodePoint} (hd : d ∉ n) (hspace : isSpace d = false) (s t : Str) :
    matchesName n (s ++ d :: t) = matchesName n (s ++ [d]) := by
  rw [matchesName_append_stop hd (Or.inl hspace), matchesName_append_stop hd (Or.inl hspace),
    nameEnds_stop hspace]

/-! ## Between the words -/

theorem newline_not_comment (comment : Option Comment) : codePoint '\n' ∉ commentText comment := by
  cases comment with
  | none => exact List.not_mem_nil
  | some comment =>
    rw [commentText, List.mem_cons, not_or]
    exact ⟨by decide, fun hmem => absurd (comment.property _ hmem) (by decide)⟩

theorem hash_plain : isSpace (codePoint '#') = false ∧ isBareKeyChar (codePoint '#') = false := by decide

/-- In a gap nothing matches, up to what is behind it. -/
theorem gap_quiet (hn : BareKey n) {g : Str} (hg : IsGap g) {r : Str} (hr : matchesName n r = false) :
    matchesName n (g ++ r) = false ∧ (Seen n (g ++ r) ↔ Seen n r) := by
  induction hg with
  | nil => exact ⟨hr, Iff.rfl⟩
  | @space c s hspace _ ih =>
    have hblank : ∀ d ∈ [c], isSpace d = true := by
      intro d hd
      rw [List.mem_singleton.mp hd]
      exact isSpace_of_isTomlSpace hspace
    have hc : c ≠ codePoint '\n' := by
      rintro rfl
      exact absurd hspace (by decide)
    refine ⟨?_, ?_⟩
    · rw [List.cons_append, ← List.singleton_append, matchesName_blanks hblank]
      exact ih.1
    · rw [List.cons_append, seen_cons hc]
      exact ih.2
  | @newline s _ ih =>
    have hblank : ∀ d ∈ [codePoint '\n'], isSpace d = true := by
      intro d hd
      rw [List.mem_singleton.mp hd]
      decide
    refine ⟨?_, ?_⟩
    · rw [List.cons_append, ← List.singleton_append, matchesName_blanks hblank]
      exact ih.1
    · rw [List.cons_append, seen_newline, ih.1]
      simpa using ih.2
  | @comment comment s _ ih =>
    have hline : codePoint '\n' ∉ codePoint '#' :: comment.val := newline_not_comment (some comment)
    refine ⟨matchesName_mark hn hash_plain.1 hash_plain.2 _, ?_⟩
    rw [← List.cons_append, List.append_assoc, seen_append_line hline, List.cons_append, seen_newline, ih.1]
    simpa using ih.2

/-! ## Keys -/

theorem KeyPart.one_line (part : KeyPart) : codePoint '\n' ∉ part.text := by
  cases part with
  | bare name hbare => exact not_mem_bare hbare newline_not_bare
  | quoted q => exact q.one_line

theorem LaidKey.one_line (key : LaidKey) : codePoint '\n' ∉ key.text := by
  rw [text, List.mem_append, not_or, restText, List.mem_flatMap]
  refine ⟨key.first.one_line, ?_⟩
  rintro ⟨⟨before, behind, part⟩, -, hmem⟩
  rw [List.mem_append, List.mem_cons, List.mem_append] at hmem
  rcases hmem with h | h | h | h
  · exact newline_not_spaces before h
  · exact absurd h (by decide)
  · exact newline_not_spaces behind h
  · exact part.one_line h

/-- The key is the name, without quotes and dots. -/
def LaidKey.IsBare (key : LaidKey) (n : Str) : Prop := (∃ hbare, key.first = .bare n hbare) ∧ key.rest = []

theorem nameEnds_spaces (sp : Spaces) {d : CodePoint} (hspace : isSpace d = false) (r : Str) :
    nameEnds (sp.val ++ d :: r) = endsName d := by
  have hspaces : ∀ e ∈ sp.val, isSpace e = true := fun e he => isSpace_of_isTomlSpace (sp.property e he)
  have hneg : ¬isSpace d = true := by rw [hspace]; decide
  rw [nameEnds, List.takeWhile_append_of_pos hspaces, List.dropWhile_append_of_pos hspaces,
    List.takeWhile_cons_of_neg hneg, List.dropWhile_cons_of_neg hneg, List.append_nil,
    List.contains_eq_mem, decide_eq_false (newline_not_spaces sp), Bool.false_or]
  simp

/-- A name does not go beyond the word in front of a space or a mark. -/
theorem startsWith_word (hn : BareKey n) (name : Str) (sp : Spaces) {d : CodePoint}
    (hbare : isBareKeyChar d = false) (r : Str) :
    startsWith (name ++ (sp.val ++ d :: r)) n = startsWith name n := by
  cases hsp : sp.val with
  | nil => exact startsWith_append_stop (not_mem_bare hn hbare) name r
  | cons e rest =>
    have he : isBareKeyChar e = false := by
      rw [← Bool.not_eq_true]
      intro hbare
      have hblank := isSpace_of_isTomlSpace (sp.property e (hsp ▸ List.mem_cons_self))
      rw [(isBareKeyChar_plain hbare).1] at hblank
      cases hblank
    exact startsWith_append_stop (not_mem_bare hn he) name (rest ++ d :: r)

/-- A bare word matches when it is the name and goes on with what may stand behind one. -/
theorem matchesName_word (hn : BareKey n) {name : Str} (hname : BareKey name) (sp : Spaces) {d : CodePoint}
    (hspace : isSpace d = false) (hbare : isBareKeyChar d = false) (r : Str) :
    matchesName n (name ++ (sp.val ++ d :: r)) = true ↔ name = n ∧ endsName d = true := by
  obtain ⟨c, tail, hcons, hc⟩ := bareKey_head hname
  have hdrop : (name ++ (sp.val ++ d :: r)).dropWhile isSpace = name ++ (sp.val ++ d :: r) := by
    rw [hcons, List.cons_append, List.dropWhile_cons_of_neg]
    rw [(isBareKeyChar_plain hc).1]
    decide
  rw [matchesName, hdrop, Bool.and_eq_true, startsWith_word hn name sp hbare, startsWith,
    List.isPrefixOf_iff_prefix]
  constructor
  · rintro ⟨⟨behind, rfl⟩, hrest⟩
    rw [List.append_assoc, List.drop_left] at hrest
    cases behind with
    | nil =>
      rw [List.nil_append, nameEnds_spaces sp hspace] at hrest
      exact ⟨List.append_nil n, hrest⟩
    | cons e behind =>
      -- a longer word goes on with one of its characters, which does not end a name
      have he := isBareKeyChar_plain (hname.2 e (List.mem_append_right _ List.mem_cons_self))
      have hneg : ¬isSpace e = true := by rw [he.1]; decide
      rw [List.cons_append, nameEnds, List.takeWhile_cons_of_neg hneg, List.dropWhile_cons_of_neg hneg] at hrest
      simp [he.2] at hrest
  · rintro ⟨rfl, hd⟩
    refine ⟨List.prefix_refl _, ?_⟩
    rw [List.drop_left, nameEnds_spaces sp hspace]
    exact hd

/-- A key with its equals sign matches when it is the bare name. -/
theorem LaidKey.matchesName_iff (hn : BareKey n) (key : LaidKey) (sp : Spaces) (r : Str) :
    matchesName n (key.text ++ (sp.val ++ codePoint '=' :: r)) = true ↔ key.IsBare n := by
  obtain ⟨first, rest⟩ := key
  cases first with
  | quoted q =>
    rw [text, List.append_assoc, KeyPart.text, q.no_match hn]
    refine ⟨fun h => absurd h (by decide), ?_⟩
    rintro ⟨⟨hbare, h⟩, -⟩
    cases h
  | bare name hname =>
    have hbare : IsBare ⟨.bare name hname, rest⟩ n ↔ name = n ∧ rest = [] := by
      refine and_congr_left fun _ => ⟨?_, ?_⟩
      · rintro ⟨_, h⟩
        exact KeyPart.bare.inj h
      · rintro rfl
        exact ⟨hname, rfl⟩
    rw [hbare]
    cases rest with
    | nil =>
      rw [text, restText, List.flatMap_nil, List.append_nil, KeyPart.text,
        matchesName_word hn hname sp (by decide) (by decide)]
      exact and_congr_right fun _ => ⟨fun _ => rfl, fun _ => by decide⟩
    | cons part rest =>
      obtain ⟨before, behind, part⟩ := part
      rw [text, restText, List.flatMap_cons, KeyPart.text, List.append_assoc, List.append_assoc,
        List.append_assoc, List.cons_append, matchesName_word hn hname before (by decide) (by decide)]
      refine ⟨fun h => absurd h.2 (by decide), fun h => absurd h.2 (List.cons_ne_nil _ _)⟩

/-! ## Values -/

/-- A line of the string, behind its first newline, that the pattern takes. -/
def Multi.Spells (m : Multi) (n : Str) : Prop :=
  ∃ line ∈ startsBehind (codePoint '\n') m.raw, matchesName n (line ++ [m.mark]) = true

mutual

/-- A string of several lines in the value spells the name. -/
def LaidValue.Spells (n : Str) : LaidValue → Prop
  | .scalar _ => False
  | .quoted _ => False
  | .multi m => m.Spells n
  | .array items => items.Spells n
  | .inline pairs => pairs.Spells n

def LaidItems.Spells (n : Str) : LaidItems → Prop
  | .close _ => False
  | .last _ value _ => value.Spells n
  | .more _ value _ rest => value.Spells n ∨ rest.Spells n

def LaidPairs.Spells (n : Str) : LaidPairs → Prop
  | .close _ => False
  | .last _ _ _ _ value _ => value.Spells n
  | .more _ _ _ _ value _ rest => value.Spells n ∨ rest.Spells n

end

theorem seen_multi (hn : BareKey n) (m : Multi) (t : Str) :
    Seen n (m.text ++ t) ↔ m.Spells n ∨ Seen n t := by
  obtain ⟨hspace, hbare, hne⟩ := isTomlQuote_plain m.isTomlQuote_mark
  have hquotes : codePoint '\n' ∉ m.quotes := by simp [Multi.quotes, hne.symm]
  rw [Multi.text, List.append_assoc, List.append_assoc, seen_append_line hquotes,
    ← seen_append_line hquotes (s := t), Multi.Spells]
  refine holdsBehind_append.trans ?_
  refine or_congr_left (exists_congr fun line => and_congr_right fun _ => ?_)
  rw [Multi.quotes, List.cons_append, matchesName_stop (not_mem_bare hn hbare) hspace]

/-- No value begins like a package of the table. -/
theorem LaidValue.no_match (hn : n ∈ nativeNames) (v : LaidValue) (t : Str) :
    matchesName n (v.text ++ t) = false := by
  have hbare := nativeNames_bare n hn
  cases v with
  | scalar s => exact s.no_match hn t
  | quoted q => exact q.no_match hbare t
  | multi m =>
    obtain ⟨hspace, hmark, -⟩ := isTomlQuote_plain m.isTomlQuote_mark
    exact matchesName_mark hbare hspace hmark _
  | array items => exact matchesName_mark hbare (c := codePoint '[') (by decide) (by decide) _
  | inline pairs => exact matchesName_mark hbare (c := codePoint '\x7b') (by decide) (by decide) _

/-- A comma or a bracket, and what stands before it. -/
theorem seen_behind (hn : BareKey n) (g : Gap) {c : CodePoint} (hspace : isSpace c = false)
    (hbare : isBareKeyChar c = false) (hc : c ≠ codePoint '\n') (t : Str) :
    Seen n (g.val ++ c :: t) ↔ Seen n t := by
  rw [(gap_quiet hn g.property (matchesName_mark hn hspace hbare t)).2, seen_cons hc]

theorem seen_spaces (sp : Spaces) {c : CodePoint} (hc : c ≠ codePoint '\n') (t : Str) :
    Seen n (sp.val ++ c :: t) ↔ Seen n t := by
  rw [seen_append_line (newline_not_spaces sp), seen_cons hc]

theorem seen_key (before : Spaces) (key : LaidKey) (left right : Spaces) (t : Str) :
    Seen n (before.val ++ (key.text ++ (left.val ++ codePoint '=' :: (right.val ++ t)))) ↔ Seen n t := by
  rw [seen_append_line (newline_not_spaces before), seen_append_line key.one_line,
    seen_spaces left (by decide), seen_append_line (newline_not_spaces right)]

mutual

/-- In a value the pattern sees the strings of several lines alone. -/
theorem seen_value (hn : n ∈ nativeNames) (v : LaidValue) (t : Str) :
    Seen n (v.text ++ t) ↔ v.Spells n ∨ Seen n t := by
  match v with
  | .scalar s =>
    rw [LaidValue.text, LaidValue.Spells, seen_append_line s.one_line, false_or]
  | .quoted q =>
    rw [LaidValue.text, LaidValue.Spells, seen_append_line q.one_line, false_or]
  | .multi m =>
    rw [LaidValue.text, LaidValue.Spells, seen_multi (nativeNames_bare n hn)]
  | .array items =>
    rw [LaidValue.text, LaidValue.Spells, List.cons_append, seen_cons (by decide), seen_items hn items]
  | .inline pairs =>
    rw [LaidValue.text, LaidValue.Spells, List.cons_append, seen_cons (by decide), seen_pairs hn pairs]

theorem seen_items (hn : n ∈ nativeNames) (items : LaidItems) (t : Str) :
    Seen n (items.text ++ t) ↔ items.Spells n ∨ Seen n t := by
  have hbare := nativeNames_bare n hn
  match items with
  | .close gap =>
    rw [LaidItems.text, LaidItems.Spells, List.append_assoc, List.singleton_append,
      seen_behind hbare gap (by decide) (by decide) (by decide), false_or]
  | .last before value behind =>
    rw [LaidItems.text, LaidItems.Spells, List.append_assoc, List.append_assoc, List.append_assoc,
      List.singleton_append, (gap_quiet hbare before.property (value.no_match hn _)).2, seen_value hn value,
      seen_behind hbare behind (by decide) (by decide) (by decide)]
  | .more before value behind rest =>
    rw [LaidItems.text, LaidItems.Spells, List.append_assoc, List.append_assoc, List.append_assoc,
      List.cons_append, (gap_quiet hbare before.property (value.no_match hn _)).2, seen_value hn value,
      seen_behind hbare behind (by decide) (by decide) (by decide), seen_items hn rest, or_assoc]

theorem seen_pairs (hn : n ∈ nativeNames) (pairs : LaidPairs) (t : Str) :
    Seen n (pairs.text ++ t) ↔ pairs.Spells n ∨ Seen n t := by
  match pairs with
  | .close space =>
    rw [LaidPairs.text, LaidPairs.Spells, List.append_assoc, List.singleton_append,
      seen_spaces space (by decide), false_or]
  | .last before key left right value behind =>
    simp only [LaidPairs.text, LaidPairs.Spells, List.append_assoc, List.cons_append, List.nil_append]
    rw [seen_key, seen_value hn value, seen_spaces behind (by decide)]
  | .more before key left right value behind rest =>
    simp only [LaidPairs.text, LaidPairs.Spells, List.append_assoc, List.cons_append]
    rw [seen_key, seen_value hn value, seen_spaces behind (by decide), seen_pairs hn rest, or_assoc]

end

/-! ## Documents -/

/-- The statement is an entry of that bare key, or a string of several lines in it spells the name. -/
def LaidStatement.Spells (n : Str) : LaidStatement → Prop
  | .blank _ _ => False
  | .entry _ key _ _ value _ _ => key.IsBare n ∨ value.Spells n
  | .opens _ _ _ _ _ _ => False
  | .appends _ _ _ _ _ _ => False

theorem seen_comment (sp : Spaces) (comment : Option Comment) (t : Str) :
    Seen n (sp.val ++ (commentText comment ++ t)) ↔ Seen n t := by
  rw [seen_append_line (newline_not_spaces sp), seen_append_line (newline_not_comment comment)]

/-- A statement at the start of a line, up to the end of its last one. -/
theorem seen_statement (hn : n ∈ nativeNames) (statement : LaidStatement) {t : Str}
    (ht : t = [] ∨ ∃ rest, t = codePoint '\n' :: rest) :
    Seen n (codePoint '\n' :: (statement.text ++ t)) ↔ statement.Spells n ∨ Seen n t := by
  have hbare := nativeNames_bare n hn
  rw [seen_newline]
  cases statement with
  | blank indent comment =>
    rw [LaidStatement.text, LaidStatement.Spells, List.append_assoc, matchesName_spaces, seen_comment, false_or]
    refine or_iff_right_of_imp fun h => ?_
    cases comment with
    | some comment =>
      rw [commentText, List.cons_append, matchesName_mark hbare hash_plain.1 hash_plain.2] at h
      cases h
    | none =>
      rw [commentText, List.nil_append] at h
      rcases ht with rfl | ⟨rest, rfl⟩
      · rw [matchesName_nil hbare] at h
        cases h
      · -- the blank line leaves the match to the next one
        rw [← List.nil_append (codePoint '\n' :: rest), matchesName_newline hbare List.not_mem_nil,
          matchesName_nil hbare] at h
        exact seen_newline.mpr (Or.inl (h.resolve_left (by decide)).2)
  | entry indent key left right value behind comment =>
    simp only [LaidStatement.text, LaidStatement.Spells, List.append_assoc, List.cons_append]
    rw [matchesName_spaces, key.matchesName_iff hbare, seen_key, seen_value hn value, seen_comment, or_assoc]
  | opens indent left key right behind comment =>
    simp only [LaidStatement.text, LaidStatement.Spells, List.append_assoc, List.cons_append, false_or]
    rw [matchesName_spaces, matchesName_mark hbare (by decide) (by decide), seen_spaces indent (by decide),
      seen_append_line (newline_not_spaces left), seen_append_line key.one_line,
      seen_spaces right (by decide), seen_comment]
    simp
  | appends indent left key right behind comment =>
    simp only [LaidStatement.text, LaidStatement.Spells, List.append_assoc, List.cons_append, false_or]
    rw [matchesName_spaces, matchesName_mark hbare (by decide) (by decide), seen_spaces indent (by decide),
      seen_cons (by decide), seen_append_line (newline_not_spaces left), seen_append_line key.one_line,
      seen_spaces right (by decide), seen_cons (by decide), seen_comment]
    simp

theorem seen_statements (hn : n ∈ nativeNames) (statements : List LaidStatement) :
    Seen n (statements.flatMap fun statement => codePoint '\n' :: statement.text) ↔
      ∃ statement ∈ statements, statement.Spells n := by
  induction statements with
  | nil => simpa using seen_nil
  | cons statement statements ih =>
    rw [List.flatMap_cons, List.cons_append, seen_statement hn statement, ih, List.exists_mem_cons_iff]
    cases statements with
    | nil => exact Or.inl rfl
    | cons next statements => exact Or.inr ⟨_, rfl⟩

/-- What the search finds in a document, whatever its layout. -/
theorem seen_document (hn : n ∈ nativeNames) (doc : LaidDocument) :
    searchName n doc.text = true ↔ ∃ statement ∈ doc, statement.Spells n := by
  rw [searchName_iff_seen, LaidDocument.text, ← seen_statements hn doc]
  by_cases hdoc : doc.map LaidStatement.text = []
  · rw [List.map_eq_nil_iff.mp hdoc]
    show Seen n [codePoint '\n'] ↔ Seen n []
    rw [seen_newline, matchesName_nil (nativeNames_bare n hn)]
    simp
  · rw [newline_join hdoc, List.flatMap_map]

/-! ## The files of a project -/

/-- `package.json` as an object, and the two other files where they are there. -/
structure DependencyFiles where
  package : List (Str × Json)
  requirements : Option Str
  pyproject : Option LaidDocument

/-- An entry of `project.dependencies` or of `tool.poetry.dependencies`. -/
def PayloadDeclares (payload : Document) (n : Str) : Prop :=
  (∃ project elems s, Dict.find? (lit "project") payload = some (.table project) ∧
      Dict.find? (lit "dependencies") project = some (.arr elems) ∧ Toml.str s ∈ elems ∧ requirementName s = n) ∨
    ∃ tool poetry items, Dict.find? (lit "tool") payload = some (.table tool) ∧
      Dict.find? (lit "poetry") tool = some (.table poetry) ∧
        Dict.find? (lit "dependencies") poetry = some (.table items) ∧ n ∈ items.map Prod.fst

namespace DependencyFiles

variable (files : DependencyFiles)

/-- A file declares a dependency of exactly that name. -/
def Declares (n : Str) : Prop :=
  PackageDeclares files.package n ∨
    (∃ text ∈ files.requirements, ∃ line ∈ text.splitOn (codePoint '\n'), requirementName line = n) ∨
      ∃ doc ∈ files.pyproject, ∃ payload, doc.payload = some payload ∧ PayloadDeclares payload n

/-- The packages of the table that are declared are reported, each once, and no others. -/
def Reported : Prop :=
  ∃ found, nativeDependencies files.package files.requirements
      (files.pyproject.map LaidDocument.text) = some found ∧
    (found.map Prod.fst).Nodup ∧ ∀ n, n ∈ found.map Prod.fst ↔ n ∈ nativeNames ∧ files.Declares n

/-- A line of the requirements with nothing but an operator, extras or a marker behind the name. -/
def InRequirements (n : Str) : Prop :=
  ∃ text ∈ files.requirements, ∃ line ∈ text.splitOn (codePoint '\n'),
    requirementName line = n ∧ Operated line

/-- An entry of that bare key in any table, or a line of a string of several lines. -/
def InPyproject (n : Str) : Prop := ∃ doc ∈ files.pyproject, ∃ statement ∈ doc, statement.Spells n

/-- What is declared stands where it is seen, and what is seen is declared. -/
structure InSight : Prop where
  mergeable : Mergeable files.package
  seen : ∀ n ∈ nativeNames, files.Declares n →
    PackageDeclares files.package n ∨ files.InRequirements n ∨ files.InPyproject n
  declared : ∀ n ∈ nativeNames, files.InPyproject n → files.Declares n

variable {files}

/-- What the function reports of the files. -/
theorem mem_reported {found : List (Str × Str × Str × Str)}
    (h : nativeDependencies files.package files.requirements
      (files.pyproject.map LaidDocument.text) = some found) (n : Str) :
    n ∈ found.map Prod.fst ↔ n ∈ nativeNames ∧
      (PackageDeclares files.package n ∨ files.InRequirements n ∨ files.InPyproject n) := by
  refine ((nativeDependencies_spec h).2 n).trans (and_congr_right fun hn => or_congr_right ?_)
  refine or_congr (exists_congr fun text => and_congr_right fun _ => ?_) ?_
  · exact searchName_requirements (nativeNames_bare n hn)
  · rw [InPyproject]
    cases files.pyproject with
    | none => simp
    | some doc => simpa using seen_document hn doc

theorem Reported.inSight (h : files.Reported) : files.InSight := by
  obtain ⟨found, hfound, -, hmem⟩ := h
  have hreported := mem_reported hfound
  refine ⟨nativeDependencies_isSome.mp (by rw [hfound]; rfl), fun n hn hdeclares => ?_, fun n hn hspelled => ?_⟩
  · exact ((hreported n).mp ((hmem n).mpr ⟨hn, hdeclares⟩)).2
  · exact ((hmem n).mp ((hreported n).mpr ⟨hn, Or.inr (Or.inr hspelled)⟩)).2

theorem InSight.reported (h : files.InSight) : files.Reported := by
  have hsome : (nativeDependencies files.package files.requirements
      (files.pyproject.map LaidDocument.text)).isSome = true := nativeDependencies_isSome.mpr h.mergeable
  obtain ⟨found, hfound⟩ := Option.isSome_iff_exists.mp hsome
  refine ⟨found, hfound, (nativeDependencies_spec hfound).1, fun n => (mem_reported hfound n).trans ?_⟩
  refine and_congr_right fun hn => ⟨?_, h.seen n hn⟩
  rintro (hpackage | ⟨text, htext, line, hline, hname, -⟩ | hspelled)
  · exact Or.inl hpackage
  · exact Or.inr (Or.inl ⟨text, htext, line, hline, hname⟩)
  · exact h.declared n hn hspelled

end DependencyFiles

/-- The packages that need a toolchain are those that the files declare if and only if `package.json`
can be merged, each one declared stands in it, at the start of a line of the requirements that goes
on with an operator, extras or a marker, or as a bare key or a line of a string in `pyproject.toml`,
and each one that stands so in `pyproject.toml` is declared. -/
theorem native_found_iff (files : DependencyFiles) : files.Reported ↔ files.InSight :=
  ⟨DependencyFiles.Reported.inSight, DependencyFiles.InSight.reported⟩

/-! ## A PEP 621 array -/

def noSpaces : Spaces := ⟨[], List.forall_mem_nil _⟩

def noGap : Gap := ⟨[], .nil⟩

theorem project_bare : BareKey "project" := ⟨by decide, List.all_eq_true.mp (by decide)⟩

theorem dependencies_bare : BareKey "dependencies" := ⟨by decide, List.all_eq_true.mp (by decide)⟩

theorem psycopg_quote : (lit "\"psycopg2>=2.9\"").head?.any isTomlQuote = true := by decide

theorem psycopg_reads : readKeyPart "\"psycopg2>=2.9\"" = some (lit "psycopg2>=2.9", []) := by decide

theorem psycopg_line : codePoint '\n' ∉ lit "\"psycopg2>=2.9\"" := by decide

def psycopgString : Quoted :=
  ⟨"\"psycopg2>=2.9\"", "psycopg2>=2.9", psycopg_quote, psycopg_reads, psycopg_line⟩

/-- `[project]` and `dependencies=["psycopg2>=2.9"]`. -/
def psycopgProject : LaidDocument :=
  [.opens noSpaces noSpaces ⟨.bare "project" project_bare, []⟩ noSpaces noSpaces none,
    .entry noSpaces ⟨.bare "dependencies" dependencies_bare, []⟩ noSpaces noSpaces
      (.array (.last noGap (.quoted psycopgString) noGap)) noSpaces none]

/-- A dependency in an array of strings is not found. -/
theorem pep621_dependency_missed : ¬∀ files : DependencyFiles, files.Reported := by
  intro h
  have hsight := (h ⟨[], none, some psycopgProject⟩).inSight
  have hdeclares : DependencyFiles.Declares ⟨[], none, some psycopgProject⟩ "psycopg2" :=
    Or.inr (Or.inr ⟨psycopgProject, rfl, _, rfl, Or.inl
      ⟨_, _, "psycopg2>=2.9", rfl, rfl, List.mem_singleton_self _, by decide⟩⟩)
  rcases hsight.seen "psycopg2" (by decide) hdeclares with hpackage | hrequirements | hpyproject
  · obtain ⟨key, -, fields, hget, -⟩ := hpackage
    cases hget
  · obtain ⟨text, htext, -⟩ := hrequirements
    cases htext
  · obtain ⟨doc, hdoc, statement, hstatement, hspells⟩ := hpyproject
    cases hdoc
    rcases List.mem_pair.mp hstatement with rfl | rfl
    · exact hspells
    · rcases hspells with ⟨⟨hbare, hkey⟩, -⟩ | hvalue
      · exact absurd (KeyPart.bare.inj hkey) (by decide)
      · exact hvalue

end DevRepro.Project
