import DevRepro.Python.Text
import DevRepro.Lib.Lines

/-!
# Words and parts of a text

The `str` methods that take a text apart: `strip` and `rstrip` with a set of
characters, `split` at whitespace and at the first occurrence of a separator, and
the `in` test.

What is taken from a text is an infix of it.  A text without a part keeps that
through all of them.
-/

namespace DevRepro.Python

/-! ## Stripping characters -/

/-- `s.strip(chars)`. -/
def stripChars (p : CodePoint → Bool) (s : Str) : Str :=
  ((s.dropWhile p).reverse.dropWhile p).reverse

/-- `s.rstrip(chars)`. -/
def stripEnd (p : CodePoint → Bool) (s : Str) : Str := (s.reverse.dropWhile p).reverse

variable {p : CodePoint → Bool}

theorem strip_eq_stripChars (s : Str) : strip s = stripChars isSpace s := rfl

theorem stripChars_eq (s : Str) : stripChars p s = stripEnd p (s.dropWhile p) := rfl

theorem stripEnd_isStart (s : Str) : stripEnd p s <+: s := by
  have h := List.dropWhile_suffix p (l := s.reverse)
  rw [← List.reverse_prefix, List.reverse_reverse] at h
  exact h

theorem stripChars_within (s : Str) : stripChars p s <:+: s := by
  rw [stripChars_eq]
  exact (stripEnd_isStart _).isInfix.trans (List.dropWhile_suffix p).isInfix

/-- A text that ends with another character is not stripped at its end. -/
theorem stripEnd_eq_self {s : Str} (h : ∀ c ∈ s.getLast?, p c = false) : stripEnd p s = s := by
  unfold stripEnd
  rw [List.getLast?_eq_head?_reverse] at h
  cases hs : s.reverse with
  | nil => simpa using hs.symm
  | cons c rest =>
    rw [hs] at h
    rw [List.dropWhile_cons_of_neg (by simp [h c rfl]), ← hs, List.reverse_reverse]

theorem stripChars_eq_self {s : Str} (hhead : ∀ c ∈ s.head?, p c = false)
    (hlast : ∀ c ∈ s.getLast?, p c = false) : stripChars p s = s := by
  have hdrop : s.dropWhile p = s := by
    cases s with
    | nil => rfl
    | cons c rest => exact List.dropWhile_cons_of_neg (by simp [hhead c rfl])
  rw [stripChars_eq, hdrop, stripEnd_eq_self hlast]

theorem stripEnd_getLast {s : Str} : ∀ c ∈ (stripEnd p s).getLast?, p c = false := by
  intro c hc
  rw [stripEnd, List.getLast?_reverse] at hc
  have := List.head?_dropWhile_not p s.reverse
  rw [Option.mem_def] at hc
  rw [hc] at this
  exact this

theorem stripChars_head {s : Str} : ∀ c ∈ (stripChars p s).head?, p c = false := by
  intro c hc
  rw [stripChars_eq] at hc
  have hhead := List.head?_dropWhile_not p s
  obtain ⟨rest, hrest⟩ := stripEnd_isStart (p := p) (s.dropWhile p)
  cases hstrip : stripEnd p (s.dropWhile p) with
  | nil =>
    rw [hstrip] at hc
    cases hc
  | cons d others =>
    rw [hstrip] at hc hrest
    rw [← hrest] at hhead
    obtain rfl : d = c := by simpa using hc
    simpa using hhead

/-- A character that is kept keeps what is before it. -/
theorem stripEnd_append_cons {c : CodePoint} (hc : p c = false) (s t : Str) :
    stripEnd p (s ++ c :: t) = s ++ c :: stripEnd p t := by
  have hsplit : (s ++ c :: t).reverse = t.reverse ++ c :: s.reverse := by simp
  rw [stripEnd, hsplit, List.dropWhile_append]
  cases ht : t.reverse.dropWhile p with
  | nil =>
    rw [List.isEmpty_nil, if_pos rfl, List.dropWhile_cons_of_neg (by simp [hc])]
    simp [stripEnd, ht]
  | cons d rest =>
    rw [List.isEmpty_cons, if_neg Bool.false_ne_true]
    simp [stripEnd, ht]

theorem stripEnd_append_blanks {t : Str} (ht : ∀ c ∈ t, isSpace c = true) (s : Str) :
    stripEnd isSpace (s ++ t) = stripEnd isSpace s := by
  rw [stripEnd, List.reverse_append,
    List.dropWhile_append_of_pos fun d hd => ht d (List.mem_reverse.mp hd)]
  rfl

theorem strip_stripEnd (s : Str) : strip (stripEnd isSpace s) = strip s := by
  have hsplit : s = stripEnd isSpace s ++ (s.reverse.takeWhile isSpace).reverse := by
    rw [stripEnd, ← List.reverse_append, List.takeWhile_append_dropWhile, List.reverse_reverse]
  have hblanks : ∀ c ∈ (s.reverse.takeWhile isSpace).reverse, isSpace c = true := fun c hc =>
    List.mem_takeWhile_imp (List.mem_reverse.mp hc)
  conv_rhs => rw [hsplit]
  generalize stripEnd isSpace s = t at hsplit
  rw [strip_eq_stripChars, strip_eq_stripChars, stripChars_eq, stripChars_eq, List.dropWhile_append]
  split_ifs with hnone
  · rw [List.isEmpty_iff] at hnone
    rw [hnone, List.dropWhile_eq_nil_iff.mpr hblanks]
  · rw [stripEnd_append_blanks hblanks]

/-- Whitespace around a text is stripped with the rest. -/
theorem strip_padded {before behind : Str} (hbefore : ∀ c ∈ before, isSpace c = true)
    (hbehind : ∀ c ∈ behind, isSpace c = true) (s : Str) :
    strip (before ++ s ++ behind) = strip s := by
  have hback : ∀ t : Str, (t ++ behind).reverse.dropWhile isSpace = t.reverse.dropWhile isSpace := by
    intro t
    rw [List.reverse_append, List.dropWhile_append_of_pos fun c hc => hbehind c (List.mem_reverse.mp hc)]
  unfold strip
  rw [List.append_assoc, List.dropWhile_append_of_pos hbefore]
  by_cases hall : ∀ c ∈ s, isSpace c = true
  · have hs : s.dropWhile isSpace = [] := List.dropWhile_eq_nil_iff.mpr hall
    have hboth : (s ++ behind).dropWhile isSpace = [] := by
      refine List.dropWhile_eq_nil_iff.mpr fun c hc => ?_
      rcases List.mem_append.mp hc with hc | hc
      · exact hall c hc
      · exact hbehind c hc
    rw [hs, hboth]
  · have hdrop : (s ++ behind).dropWhile isSpace = s.dropWhile isSpace ++ behind := by
      rw [List.dropWhile_append, if_neg]
      rw [List.isEmpty_iff, List.dropWhile_eq_nil_iff]
      exact hall
    rw [hdrop, hback]

/-- Stripping again changes nothing. -/
theorem stripChars_idem (s : Str) : stripChars p (stripChars p s) = stripChars p s :=
  stripChars_eq_self stripChars_head fun c hc => stripEnd_getLast c hc

/-- A character outside the set is kept. -/
theorem mem_stripChars {s : Str} {c : CodePoint} (h : c ∈ s) (hp : p c = false) :
    c ∈ stripChars p s := by
  have hdrop : ∀ l : Str, c ∈ l → c ∈ l.dropWhile p := by
    intro l hl
    induction l with
    | nil => exact hl
    | cons d l ih =>
      rw [List.dropWhile_cons]
      split_ifs with hd
      · rcases List.mem_cons.mp hl with rfl | hl
        · rw [hp] at hd
          cases hd
        · exact ih hl
      · exact hl
  rw [stripChars, List.mem_reverse]
  exact hdrop _ (List.mem_reverse.mpr (hdrop s h))

/-! ## Parts -/

/-- `sub in s`. -/
def containsText (s sub : Str) : Bool := s.tails.any sub.isPrefixOf

theorem containsText_iff {s sub : Str} : containsText s sub = true ↔ sub <:+: s := by
  unfold containsText
  rw [List.any_eq_true]
  simp only [List.mem_tails, List.isPrefixOf_iff_prefix]
  constructor
  · rintro ⟨tail, htail, hsub⟩
    exact hsub.isInfix.trans htail.isInfix
  · rintro ⟨before, after, rfl⟩
    exact ⟨sub ++ after, ⟨before, by simp⟩, List.prefix_append _ _⟩

/-- `s.split(sub, 1)[0]`. -/
def beforeText (sub : Str) : Str → Str
  | [] => []
  | c :: rest => if sub.isPrefixOf (c :: rest) then [] else c :: beforeText sub rest

theorem beforeText_isStart (sub s : Str) : beforeText sub s <+: s := by
  induction s with
  | nil => exact List.nil_prefix
  | cons c rest ih =>
    rw [beforeText]
    split_ifs
    · exact List.nil_prefix
    · exact List.prefix_cons_inj c |>.mpr ih

/-- What stands before the first occurrence has none of it. -/
theorem beforeText_without {sub s : Str} (hne : sub ≠ []) : ¬sub <:+: beforeText sub s := by
  induction s with
  | nil => simpa [beforeText] using hne
  | cons c rest ih =>
    rw [beforeText]
    split_ifs with h
    · simpa using hne
    · rw [List.infix_cons_iff]
      rintro (hpre | hin)
      · exact h (List.isPrefixOf_iff_prefix.mpr
          (hpre.trans ((List.prefix_cons_inj c).mpr (beforeText_isStart sub rest))))
      · exact ih hin

/-- A part of a split text has no other characters than the text. -/
theorem mem_of_mem_splitOn {a c : CodePoint} {s part : Str} (h : part ∈ s.splitOn a)
    (hc : c ∈ part) : c ∈ s := by
  induction s generalizing part with
  | nil =>
    rw [List.splitOn_nil, List.mem_singleton] at h
    exact h ▸ hc
  | cons d s ih =>
    rw [List.splitOn, List.splitOnP_cons_eq_if_modifyHead] at h
    split_ifs at h
    · rcases List.mem_cons.mp h with rfl | h
      · cases hc
      · exact List.mem_cons_of_mem d (ih h hc)
    · cases hs : s.splitOnP (· == a) with
      | nil => exact absurd hs (List.splitOnP_ne_nil _ _)
      | cons first rest =>
        rw [hs] at h
        rcases List.mem_cons.mp h with rfl | h
        · rcases List.mem_cons.mp hc with rfl | hc
          · exact List.mem_cons_self
          · refine List.mem_cons_of_mem d (ih ?_ hc)
            rw [List.splitOn, hs]
            exact List.mem_cons_self
        · refine List.mem_cons_of_mem d (ih ?_ hc)
          rw [List.splitOn, hs]
          exact List.mem_cons_of_mem first h

/-! ## Lines -/

/-- A newline ends what stands before it. -/
theorem scanLines_append_newline (s rest : Str) :
    scanLines (s ++ codePoint '\n' :: rest) =
      ((scanLines (s ++ [codePoint '\n'])).1 ++ (scanLines rest).1, (scanLines rest).2) := by
  induction s with
  | nil =>
    rw [List.nil_append, List.nil_append, scanLines]
    have hbreak : isLineBreak (codePoint '\n') = true := by decide
    have hne : codePoint '\n' ≠ codePoint '\r' := by decide
    rw [if_pos hbreak, if_neg fun h => hne h.1]
    have hone : scanLines [codePoint '\n'] = ([[]], []) := by decide
    rw [hone]
    rfl
  | cons c s ih =>
    have hhead : (s ++ codePoint '\n' :: rest).head? = (s ++ [codePoint '\n']).head? := by
      cases s <;> rfl
    rw [List.cons_append, List.cons_append, scanLines, scanLines, ih, hhead]
    dsimp only
    split_ifs
    · rfl
    · rfl
    · have hne : (scanLines (s ++ [codePoint '\n'])).1 ≠ [] := by
        clear ih hhead
        induction s with
        | nil => decide
        | cons d s ih =>
          rw [List.cons_append, scanLines]
          split_ifs
          · exact ih
          · exact List.cons_ne_nil _ _
          · cases hl : (scanLines (s ++ [codePoint '\n'])).1 with
            | nil => exact absurd hl ih
            | cons line lines => exact List.cons_ne_nil _ _
      obtain ⟨line, lines, hlines⟩ := List.exists_cons_of_ne_nil hne
      rw [hlines]
      rfl

theorem scanLines_newline_tail (s : Str) : (scanLines (s ++ [codePoint '\n'])).2 = [] := by
  rw [scanLines_append_newline]
  rfl

theorem splitlines_append_newline (s rest : Str) :
    splitlines (s ++ codePoint '\n' :: rest) =
      splitlines (s ++ [codePoint '\n']) ++ splitlines rest := by
  rw [splitlines, splitlines, splitlines, scanLines_newline_tail, scanLines_append_newline]
  simp

/-- A line holds no line boundary. -/
theorem no_break_of_mem_splitlines {s line : Str} (h : line ∈ splitlines s) :
    ∀ c ∈ line, isLineBreak c = false := by
  have hscan : (∀ l ∈ (scanLines s).1, ∀ c ∈ l, isLineBreak c = false) ∧
      ∀ c ∈ (scanLines s).2, isLineBreak c = false := by
    clear h
    induction s with
    | nil => simp [scanLines]
    | cons c s ih =>
      obtain ⟨hlines, htail⟩ := ih
      rw [scanLines]
      split_ifs with hbreak
      · exact ⟨hlines, htail⟩
      · refine ⟨fun l hl => ?_, htail⟩
        rcases List.mem_cons.mp hl with rfl | hl
        · simp
        · exact hlines l hl
      · rw [Bool.not_eq_true] at hbreak
        cases hl : (scanLines s).1 with
        | nil =>
          refine ⟨by simp, fun d hd => ?_⟩
          rcases List.mem_cons.mp hd with rfl | hd
          · exact hbreak
          · exact htail d hd
        | cons first others =>
          rw [hl] at hlines
          refine ⟨fun l hmem d hd => ?_, htail⟩
          rcases List.mem_cons.mp hmem with rfl | hmem
          · rcases List.mem_cons.mp hd with rfl | hd
            · exact hbreak
            · exact hlines first List.mem_cons_self d hd
          · exact hlines l (List.mem_cons_of_mem _ hmem) d hd
  rw [splitlines, List.mem_append] at h
  rcases h with h | h
  · exact hscan.1 line h
  · split_ifs at h
    · cases h
    · rw [List.mem_singleton.mp h]
      exact hscan.2

/-! ## Words -/

/-- The pieces of a text between single whitespace characters. -/
def splitSpaces : Str → List Str
  | [] => [[]]
  | c :: rest =>
    if isSpace c then [] :: splitSpaces rest
    else
      match splitSpaces rest with
      | [] => [[c]]
      | piece :: pieces => (c :: piece) :: pieces

/-- `s.split()`. -/
def words (s : Str) : List Str := (splitSpaces s).filter fun piece => piece != []

theorem splitSpaces_ne_nil (s : Str) : splitSpaces s ≠ [] := by
  cases s with
  | nil => exact List.cons_ne_nil _ _
  | cons c rest =>
    rw [splitSpaces]
    split_ifs
    · exact List.cons_ne_nil _ _
    · split <;> exact List.cons_ne_nil _ _

/-- The first piece is the text up to its first whitespace. -/
theorem splitSpaces_head (s : Str) :
    (splitSpaces s).head? = some (s.takeWhile fun c => !isSpace c) := by
  induction s with
  | nil => rfl
  | cons c rest ih =>
    rw [splitSpaces]
    by_cases h : isSpace c = true
    · simp [h]
    · cases hsplit : splitSpaces rest with
      | nil => exact absurd hsplit (splitSpaces_ne_nil rest)
      | cons piece pieces =>
        rw [hsplit] at ih
        simp only [h]
        simpa [h] using ih

/-- A part without whitespace lies within a word. -/
theorem infix_words_iff {s sub : Str} (hne : sub ≠ []) (hsub : ∀ c ∈ sub, isSpace c = false) :
    sub <:+: s ↔ ∃ w ∈ words s, sub <:+: w := by
  have hpieces : sub <:+: s ↔ ∃ w ∈ splitSpaces s, sub <:+: w := by
    induction s with
    | nil => simp [splitSpaces]
    | cons c rest ih =>
      have hprefix : sub <+: c :: rest ↔
          isSpace c = false ∧ sub <+: c :: rest.takeWhile fun d => !isSpace d := by
        constructor
        · intro h
          obtain ⟨d, others, rfl⟩ := List.exists_cons_of_ne_nil hne
          obtain ⟨hd, hothers⟩ := List.cons_prefix_cons.mp h
          subst hd
          refine ⟨hsub d List.mem_cons_self, List.cons_prefix_cons.mpr ⟨rfl, ?_⟩⟩
          obtain ⟨behind, rfl⟩ := hothers
          rw [List.takeWhile_append_of_pos]
          · exact List.prefix_append _ _
          · intro e he
            simp [hsub e (List.mem_cons_of_mem _ he)]
        · rintro ⟨-, h⟩
          exact h.trans ((List.prefix_cons_inj c).mpr (List.takeWhile_prefix _))
      rw [List.infix_cons_iff, hprefix, ih, splitSpaces]
      by_cases hc : isSpace c = true
      · simp only [hc, ↓reduceIte]
        constructor
        · rintro (⟨h, -⟩ | ⟨w, hw, hin⟩)
          · cases h
          · exact ⟨w, List.mem_cons_of_mem _ hw, hin⟩
        · rintro ⟨w, hw, hin⟩
          rcases List.mem_cons.mp hw with rfl | hw
          · exact absurd (List.eq_nil_of_infix_nil hin) hne
          · exact Or.inr ⟨w, hw, hin⟩
      · have hhead := splitSpaces_head rest
        cases hsplit : splitSpaces rest with
        | nil => exact absurd hsplit (splitSpaces_ne_nil rest)
        | cons piece pieces =>
          rw [hsplit] at hhead
          obtain rfl : piece = rest.takeWhile fun d => !isSpace d := by simpa using hhead
          simp only [hc, Bool.false_eq_true, ↓reduceIte, List.mem_cons, exists_eq_or_imp,
            List.infix_cons_iff]
          simp only [Bool.not_eq_true] at hc
          tauto
  rw [hpieces]
  constructor
  · rintro ⟨w, hw, hin⟩
    refine ⟨w, List.mem_filter.mpr ⟨hw, ?_⟩, hin⟩
    rw [bne_iff_ne]
    rintro rfl
    exact hne (List.eq_nil_of_infix_nil hin)
  · rintro ⟨w, hw, hin⟩
    exact ⟨w, (List.mem_filter.mp hw).1, hin⟩

theorem words_eq_nil_iff (s : Str) : words s = [] ↔ ∀ c ∈ s, isSpace c = true := by
  constructor
  · intro h c hc
    by_contra hsp
    obtain ⟨w, hw, -⟩ := (infix_words_iff (s := s) (List.cons_ne_nil c [])
      fun d hd => by simpa [List.mem_singleton.mp hd] using hsp).mp
        (by
          obtain ⟨before, after, rfl⟩ := List.append_of_mem hc
          exact ⟨before, after, by simp⟩)
    rw [h] at hw
    cases hw
  · intro h
    unfold words
    rw [List.filter_eq_nil_iff]
    induction s with
    | nil => simp [splitSpaces]
    | cons c rest ih =>
      intro w hw
      rw [splitSpaces, if_pos (h c List.mem_cons_self)] at hw
      rcases List.mem_cons.mp hw with rfl | hw
      · simp
      · exact ih (fun d hd => h d (List.mem_cons_of_mem _ hd)) w hw

/-- The first word of a text that starts with a word. -/
theorem words_cons {c : CodePoint} {rest : Str} (h : isSpace c = false) :
    ∃ others, words (c :: rest) = (c :: rest.takeWhile fun d => !isSpace d) :: others := by
  have hhead := splitSpaces_head (c :: rest)
  unfold words
  cases hsplit : splitSpaces (c :: rest) with
  | nil => exact absurd hsplit (splitSpaces_ne_nil _)
  | cons piece pieces =>
    rw [hsplit, List.head?_cons, Option.some.injEq, List.takeWhile_cons_of_pos (by simp [h])]
      at hhead
    rw [hhead]
    exact ⟨_, List.filter_cons_of_pos (by simp)⟩

theorem mem_splitSpaces {s piece : Str} (h : piece ∈ splitSpaces s) :
    ∀ c ∈ piece, isSpace c = false := by
  induction s generalizing piece with
  | nil =>
    rw [List.mem_singleton.mp h]
    simp
  | cons c rest ih =>
    rw [splitSpaces] at h
    split_ifs at h with hc
    · rcases List.mem_cons.mp h with rfl | h
      · simp
      · exact ih h
    · cases hsplit : splitSpaces rest with
      | nil => exact absurd hsplit (splitSpaces_ne_nil rest)
      | cons first others =>
        rw [hsplit] at h ih
        rcases List.mem_cons.mp h with rfl | h
        · intro d hd
          rcases List.mem_cons.mp hd with rfl | hd
          · simpa using hc
          · exact ih List.mem_cons_self d hd
        · exact ih (List.mem_cons_of_mem _ h)

/-- A word is not empty and has no whitespace. -/
theorem mem_words {s w : Str} (h : w ∈ words s) : w ≠ [] ∧ ∀ c ∈ w, isSpace c = false :=
  ⟨by simpa using (List.mem_filter.mp h).2, mem_splitSpaces (List.mem_filter.mp h).1⟩

theorem splitSpaces_word {w : Str} (hw : ∀ c ∈ w, isSpace c = false) : splitSpaces w = [w] := by
  induction w with
  | nil => rfl
  | cons c w ih =>
    rw [splitSpaces, hw c List.mem_cons_self, ih fun d hd => hw d (List.mem_cons_of_mem _ hd)]
    rfl

theorem splitSpaces_append {w : Str} (hw : ∀ c ∈ w, isSpace c = false) (rest : Str) :
    splitSpaces (w ++ codePoint ' ' :: rest) = w :: splitSpaces rest := by
  induction w with
  | nil => rfl
  | cons c w ih =>
    rw [List.cons_append, splitSpaces, hw c List.mem_cons_self,
      ih fun d hd => hw d (List.mem_cons_of_mem _ hd)]
    rfl

theorem join_cons_cons (sep s t : Str) (rest : List Str) :
    join sep (s :: t :: rest) = s ++ sep ++ join sep (t :: rest) := rfl

theorem join_eq_intercalate (sep : Str) (parts : List Str) : join sep parts = sep.intercalate parts := by
  induction parts with
  | nil => rfl
  | cons part parts ih =>
    cases parts with
    | nil => simp [join, List.intercalate]
    | cons next rest =>
      rw [join_cons_cons, ih]
      simp [List.intercalate]

theorem mem_join {sep : Str} {parts : List Str} {c : CodePoint} (h : c ∈ join sep parts) :
    c ∈ sep ∨ ∃ part ∈ parts, c ∈ part := by
  induction parts with
  | nil => cases h
  | cons part parts ih =>
    cases parts with
    | nil => exact Or.inr ⟨part, List.mem_cons_self, h⟩
    | cons next rest =>
      rw [join, List.mem_append, List.mem_append] at h
      · rcases h with (h | h) | h
        · exact Or.inr ⟨part, List.mem_cons_self, h⟩
        · exact Or.inl h
        · rcases ih h with h | ⟨other, hmem, h⟩
          · exact Or.inl h
          · exact Or.inr ⟨other, List.mem_cons_of_mem _ hmem, h⟩
      · exact List.cons_ne_nil _ _

theorem mem_join_of_mem {sep part : Str} {parts : List Str} {c : CodePoint} (hpart : part ∈ parts)
    (hc : c ∈ part) : c ∈ join sep parts := by
  induction parts with
  | nil => cases hpart
  | cons first rest ih =>
    cases rest with
    | nil => exact List.mem_singleton.mp hpart ▸ hc
    | cons next rest =>
      rw [join_cons_cons, List.mem_append, List.mem_append]
      rcases List.mem_cons.mp hpart with rfl | hpart
      · exact Or.inl (Or.inl hc)
      · exact Or.inr (ih hpart)

/-- Words that are joined by blanks are the words of the text. -/
theorem words_join {ws : List Str} (h : ∀ w ∈ ws, w ≠ [] ∧ ∀ c ∈ w, isSpace c = false) :
    words (join " " ws) = ws := by
  have hfilter : ws.filter (fun piece => piece != []) = ws := by
    rw [List.filter_eq_self]
    intro w hw
    simpa using (h w hw).1
  cases ws with
  | nil => rfl
  | cons first rest =>
    have hsplit : splitSpaces (join " " (first :: rest)) = first :: rest := by
      clear hfilter
      induction rest generalizing first with
      | nil => exact splitSpaces_word (h first List.mem_cons_self).2
      | cons second rest ih =>
        rw [join_cons_cons, List.append_assoc]
        have hrest := splitSpaces_append (h first List.mem_cons_self).2
          (join " " (second :: rest))
        rw [ih second fun w hw => h w (List.mem_cons_of_mem _ hw)] at hrest
        exact hrest
    rw [words, hsplit, hfilter]

end DevRepro.Python

/-!
## Joined lines

A program that writes a text collects its lines and joins them, with a newline
behind the last one.
-/

namespace DevRepro.Python

open DevRepro.Lib

/-- `"\n".join(lines) + "\n"` puts a newline behind each line. -/
theorem join_newline {lines : List Str} (h : lines ≠ []) :
    join "\n" lines ++ lit "\n" = unlines (codePoint '\n') lines := by
  induction lines with
  | nil => exact absurd rfl h
  | cons line lines ih =>
    have hcons : unlines (codePoint '\n') (line :: lines) =
        line ++ (lit "\n" ++ unlines (codePoint '\n') lines) := by
      rw [unlines, List.flatMap_cons, List.append_assoc]
      rfl
    rw [hcons]
    cases lines with
    | nil => simp [join, unlines]
    | cons next rest =>
      have hjoin : join "\n" (line :: next :: rest) = line ++ lit "\n" ++ join "\n" (next :: rest) := rfl
      rw [← ih (List.cons_ne_nil _ _), hjoin, List.append_assoc, List.append_assoc]

/-- An empty last line puts a newline behind the others. -/
theorem join_newline_nil {lines : List Str} (h : lines ≠ []) :
    join "\n" (lines ++ [[]]) = unlines (codePoint '\n') lines := by
  rw [← join_newline h]
  induction lines with
  | nil => exact absurd rfl h
  | cons line lines ih =>
    cases lines with
    | nil => simp [join]
    | cons next rest =>
      have hjoin : ∀ rest : List Str, join "\n" (line :: next :: rest) =
          line ++ lit "\n" ++ join "\n" (next :: rest) := fun _ => rfl
      have hrest := ih (List.cons_ne_nil _ _)
      rw [List.cons_append] at hrest
      rw [List.cons_append, List.cons_append, hjoin, hjoin, hrest, List.append_assoc _ _ (lit "\n")]

/-- The lines of a text are the ones it was written from, when they hold no boundary. -/
theorem splitlines_unlines {lines : List Str} (h : ∀ line ∈ lines, Unbroken isLineBreak line) :
    splitlines (unlines (codePoint '\n') lines) = lines := by
  have hscan : scanLines (unlines (codePoint '\n') lines) = (lines, []) := by
    induction lines with
    | nil => rfl
    | cons line lines ih =>
      rw [List.forall_mem_cons] at h
      have hcons : unlines (codePoint '\n') (line :: lines) =
          line ++ codePoint '\n' :: unlines (codePoint '\n') lines := by simp [unlines]
      rw [hcons, scanLines_line h.1, ih h.2]
  rw [splitlines, hscan]
  simp

/-- Lines without a newline can be read off their join. -/
theorem join_newline_injective {lines others : List Str} (hne : lines ≠ []) (hne' : others ≠ [])
    (h : ∀ line ∈ lines, Unbroken isLineBreak line) (h' : ∀ line ∈ others, Unbroken isLineBreak line)
    (heq : join "\n" lines = join "\n" others) : lines = others := by
  rw [← splitlines_unlines h, ← splitlines_unlines h', ← join_newline hne, ← join_newline hne', heq]

/-- What ends a line is white space. -/
theorem isSpace_of_isLineBreak {c : CodePoint} (h : isLineBreak c = true) : isSpace c = true := by
  rw [isLineBreak] at h
  rw [isSpace]
  simp only [Bool.or_eq_true, Bool.and_eq_true, decide_eq_true_eq, beq_iff_eq] at h ⊢
  omega

/-- A part of a split text does not hold the separator. -/
theorem not_mem_of_mem_splitOn {a : CodePoint} {s part : Str} (h : part ∈ s.splitOn a) : a ∉ part := by
  induction s generalizing part with
  | nil =>
    rw [List.splitOn_nil, List.mem_singleton] at h
    exact h ▸ List.not_mem_nil
  | cons c s ih =>
    rw [List.splitOn, List.splitOnP_cons_eq_if_modifyHead] at h
    split_ifs at h with hc
    · rcases List.mem_cons.mp h with rfl | h
      · exact List.not_mem_nil
      · exact ih h
    · cases hs : s.splitOnP (· == a) with
      | nil => exact absurd hs (List.splitOnP_ne_nil _ _)
      | cons first rest =>
        have hmem : ∀ p ∈ first :: rest, p ∈ s.splitOn a := by
          intro p hp
          rw [List.splitOn, hs]
          exact hp
        rw [hs] at h
        rcases List.mem_cons.mp h with rfl | h
        · rw [List.mem_cons, not_or]
          exact ⟨fun heq => hc (beq_iff_eq.mpr heq.symm), ih (hmem _ List.mem_cons_self)⟩
        · exact ih (hmem _ (List.mem_cons_of_mem first h))

theorem scanLines_append_char {c : CodePoint} (hc : isLineBreak c = false) (s : Str) :
    scanLines (s ++ [c]) = ((scanLines s).1, (scanLines s).2 ++ [c]) := by
  have hnewline : c ≠ codePoint '\n' := by
    rintro rfl
    exact absurd hc (by decide)
  induction s with
  | nil => simp [scanLines, hc]
  | cons d s ih =>
    have hhead : (s ++ [c]).head? = some (codePoint '\n') ↔ s.head? = some (codePoint '\n') := by
      cases s with
      | nil => simpa using hnewline
      | cons e s => simp
    rw [List.cons_append, scanLines, scanLines, ih]
    simp only [hhead]
    split_ifs
    · rfl
    · rfl
    · cases (scanLines s).1 with
      | nil => rfl
      | cons line lines => rfl

/-- The lines of a text do not hang on the newline behind the last one. -/
theorem splitlines_append_last {s : Str} {c : CodePoint} (hlast : s.getLast? = some c)
    (hc : isLineBreak c = false) : splitlines (s ++ lit "\n") = splitlines s := by
  obtain ⟨start, rfl⟩ := List.getLast?_eq_some_iff.mp hlast
  have hline : ∀ d ∈ [c], isLineBreak d = false := fun d hd => List.mem_singleton.mp hd ▸ hc
  rw [List.append_assoc]
  show splitlines (start ++ ([c] ++ [codePoint '\n'])) = _
  rw [splitlines_append_line start [c] (List.cons_ne_nil c []) hline, splitlines,
    scanLines_append_char hc, if_neg (by simp)]
  rfl

end DevRepro.Python

/-!
## Words before a comment

The words of a text that is cut at its first `#` are those of the text up to the piece with
the `#`.
-/

namespace DevRepro.Python

/-- The pieces before the first `#`. -/
def cutPieces : List Str → List Str
  | [] => []
  | p :: ps => if codePoint '#' ∈ p then [beforeText "#" p] else p :: cutPieces ps

theorem beforeText_hash (c : CodePoint) (rest : Str) :
    beforeText "#" (c :: rest) = if c = codePoint '#' then [] else c :: beforeText "#" rest := by
  rw [beforeText]
  by_cases hc : c = codePoint '#'
  · rw [if_pos hc, if_pos]
    rw [hc]
    rfl
  · rw [if_neg hc, if_neg]
    rw [List.isPrefixOf_iff_prefix]
    intro hprefix
    exact hc (List.cons_prefix_cons.mp hprefix).1.symm

theorem splitSpaces_space {c : CodePoint} (hc : isSpace c = true) (rest : Str) :
    splitSpaces (c :: rest) = [] :: splitSpaces rest := by
  rw [splitSpaces, if_pos hc]

theorem splitSpaces_other {c : CodePoint} (hc : isSpace c = false) {rest piece : Str}
    {pieces : List Str} (h : splitSpaces rest = piece :: pieces) :
    splitSpaces (c :: rest) = (c :: piece) :: pieces := by
  rw [splitSpaces, h, if_neg (by rw [hc]; exact Bool.false_ne_true)]

theorem splitSpaces_beforeText (s : Str) :
    splitSpaces (beforeText "#" s) = cutPieces (splitSpaces s) := by
  induction s with
  | nil => decide
  | cons c rest ih =>
    rw [beforeText_hash]
    cases hsplit : splitSpaces rest with
    | nil => exact absurd hsplit (splitSpaces_ne_nil rest)
    | cons piece pieces =>
      rw [hsplit] at ih
      by_cases hc : c = codePoint '#'
      · subst hc
        rw [if_pos rfl, splitSpaces_other (by decide) hsplit, cutPieces, if_pos List.mem_cons_self,
          beforeText_hash, if_pos rfl]
        rfl
      · rw [if_neg hc]
        by_cases hspace : isSpace c = true
        · rw [splitSpaces_space hspace, splitSpaces_space hspace, ih, hsplit]
          exact (if_neg List.not_mem_nil).symm
        · rw [Bool.not_eq_true] at hspace
          rw [splitSpaces_other hspace hsplit, cutPieces]
          rw [cutPieces] at ih
          by_cases hin : codePoint '#' ∈ piece
          · rw [if_pos hin] at ih
            rw [if_pos (List.mem_cons_of_mem c hin), splitSpaces_other hspace ih, beforeText_hash,
              if_neg hc]
          · rw [if_neg hin] at ih
            have hnot : codePoint '#' ∉ c :: piece := by
              rw [List.mem_cons, not_or]
              exact ⟨fun heq => hc heq.symm, hin⟩
            rw [if_neg hnot, splitSpaces_other hspace ih]

/-- The words before a comment. -/
theorem words_beforeText (s : Str) :
    words (beforeText "#" s) = (cutPieces (words s)).filter fun piece => piece != [] := by
  have hfilter : ∀ pieces : List Str, (cutPieces pieces).filter (fun piece => piece != []) =
      (cutPieces (pieces.filter fun piece => piece != [])).filter fun piece => piece != [] := by
    intro pieces
    induction pieces with
    | nil => rfl
    | cons p pieces ih =>
      rw [List.filter_cons]
      by_cases hne : p = []
      · subst hne
        rw [cutPieces, if_neg List.not_mem_nil, List.filter_cons_of_neg (by decide), ih]
        rfl
      · rw [if_pos (bne_iff_ne.mpr hne), cutPieces, cutPieces]
        split_ifs
        · rfl
        · rw [List.filter_cons, List.filter_cons, ih]
  rw [words, splitSpaces_beforeText, hfilter, words]

theorem splitSpaces_append_space {c : CodePoint} (hc : isSpace c = true) (s t : Str) :
    splitSpaces (s ++ c :: t) = splitSpaces s ++ splitSpaces t := by
  induction s with
  | nil =>
    rw [List.nil_append, splitSpaces_space hc]
    rfl
  | cons d s ih =>
    cases hsplit : splitSpaces s with
    | nil => exact absurd hsplit (splitSpaces_ne_nil s)
    | cons piece pieces =>
      rw [hsplit, List.cons_append] at ih
      by_cases hd : isSpace d = true
      · rw [List.cons_append, splitSpaces_space hd, splitSpaces_space hd, ih, hsplit]
        rfl
      · rw [Bool.not_eq_true] at hd
        rw [List.cons_append, splitSpaces_other hd ih, splitSpaces_other hd hsplit]
        rfl

/-- Whitespace around a text has no words. -/
theorem words_strip (s : Str) : words (strip s) = words s := by
  have hblank : ∀ (s t : Str), (∀ c ∈ t, isSpace c = true) → words (s ++ t) = words s := by
    intro s t ht
    cases t with
    | nil => rw [List.append_nil]
    | cons c t =>
      have hnil : words t = [] := (words_eq_nil_iff t).mpr fun d hd => ht d (List.mem_cons_of_mem _ hd)
      rw [words, splitSpaces_append_space (ht c List.mem_cons_self), List.filter_append]
      rw [words] at hnil
      rw [hnil, List.append_nil, words]
  have hdrop : ∀ s : Str, words (s.dropWhile isSpace) = words s := by
    intro s
    induction s with
    | nil => rfl
    | cons c s ih =>
      rw [List.dropWhile_cons]
      split_ifs with hc
      · rw [ih, words, words, splitSpaces, if_pos hc]
        rfl
      · rfl
  rw [strip_eq_stripChars, stripChars_eq, ← hdrop s]
  have hsplit : s.dropWhile isSpace = stripEnd isSpace (s.dropWhile isSpace) ++
      ((s.dropWhile isSpace).reverse.takeWhile isSpace).reverse := by
    rw [stripEnd, ← List.reverse_append, List.takeWhile_append_dropWhile, List.reverse_reverse]
  conv_rhs => rw [hsplit]
  refine (hblank _ _ fun c hc => ?_).symm
  exact List.mem_takeWhile_imp (List.mem_reverse.mp hc)

theorem hash_not_mem_cutPieces {pieces : List Str} {piece : Str} (h : piece ∈ cutPieces pieces) :
    codePoint '#' ∉ piece := by
  induction pieces with
  | nil => cases h
  | cons p pieces ih =>
    rw [cutPieces] at h
    split_ifs at h with hin
    · rw [List.mem_singleton.mp h]
      intro hmem
      refine @beforeText_without (lit "#") p (List.cons_ne_nil _ _) ?_
      obtain ⟨before, after, heq⟩ := List.append_of_mem hmem
      exact ⟨before, after, by rw [heq, List.append_assoc]; rfl⟩
    · rcases List.mem_cons.mp h with rfl | h
      · exact hin
      · exact ih h

end DevRepro.Python
