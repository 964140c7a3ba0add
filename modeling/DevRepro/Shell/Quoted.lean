import DevRepro.Python.Text
import Mathlib.Data.List.Chain
import Mathlib.Tactic.SplitIfs

/-!
# Words in double quotes

What a POSIX shell makes of a text in double quotes.  `readQuoted_iff` says which texts
it passes on as they are.
-/

namespace DevRepro.Shell

open DevRepro.Python

/-- The characters that a backslash takes the meaning of. -/
def isEscapable (c : CodePoint) : Bool :=
  [codePoint '$', 0x60, codePoint '"', codePoint '\\'].contains c

/-- The characters that make an expansion of a dollar sign before them: those of a name,
the special parameters, and the brackets. -/
def startsExpansion (c : CodePoint) : Bool :=
  (0x30 ≤ c.val && c.val ≤ 0x39) || (0x41 ≤ c.val && c.val ≤ 0x5A) || (0x61 ≤ c.val && c.val ≤ 0x7A) ||
    (lit "_@*#?-$!([\x7b").contains c

/-- The word that starts behind a double quote, and what is behind the closing quote.  No
word is read where the shell would expand something.  `slash` says that a backslash is
before the text. -/
def readQuoted : Bool → Str → Option (Str × Str)
  | _, [] => none
  | true, c :: rest =>
    if c = codePoint '\n' then readQuoted false rest
    else (readQuoted false rest).map fun found =>
      (if isEscapable c then c :: found.1 else codePoint '\\' :: c :: found.1, found.2)
  | false, c :: rest =>
    if c = codePoint '"' then some ([], rest)
    else if c = codePoint '\\' then readQuoted true rest
    else if c = 0x60 ∨ c = codePoint '$' ∧ rest.head?.any startsExpansion = true then none
    else (readQuoted false rest).map fun found => (c :: found.1, found.2)

/-- Two characters in a row that mean themselves. -/
def Plain (c d : CodePoint) : Prop :=
  ¬(c = codePoint '\\' ∧ (isEscapable d = true ∨ d = codePoint '\n')) ∧
    ¬(c = codePoint '$' ∧ startsExpansion d = true)

/-- A text that means itself in double quotes. -/
structure Literal (s : Str) : Prop where
  quotes : ∀ c ∈ s, c ≠ codePoint '"' ∧ c ≠ 0x60
  pairs : (s ++ [codePoint '"']).IsChain Plain

/-- A read word is no longer than its text, and shorter when a backslash went. -/
theorem readQuoted_length {slash : Bool} {text word behind : Str}
    (h : readQuoted slash text = some (word, behind)) :
    word.length + behind.length + 1 ≤ text.length + slash.toNat := by
  induction text generalizing slash word behind with
  | nil => cases slash <;> cases h
  | cons c rest ih =>
    cases slash with
    | true =>
      rw [readQuoted] at h
      split_ifs at h with hc hescapable
      · have hrest := ih h
        simp only [Bool.toNat_false, Bool.toNat_true, List.length_cons] at hrest ⊢
        omega
      · obtain ⟨found, hfound, heq⟩ := Option.map_eq_some_iff.mp h
        have hrest := ih hfound
        cases heq
        simp only [Bool.toNat_false, Bool.toNat_true, List.length_cons] at hrest ⊢
        omega
      · obtain ⟨found, hfound, heq⟩ := Option.map_eq_some_iff.mp h
        have hrest := ih hfound
        cases heq
        simp only [Bool.toNat_false, Bool.toNat_true, List.length_cons] at hrest ⊢
        omega
    | false =>
      rw [readQuoted] at h
      split_ifs at h with hquote hslash hstop
      · cases h
        simp
      · have hrest := ih h
        simp only [Bool.toNat_false, Bool.toNat_true, List.length_cons] at hrest ⊢
        omega
      · obtain ⟨found, hfound, heq⟩ := Option.map_eq_some_iff.mp h
        have hrest := ih hfound
        cases heq
        simp only [Bool.toNat_false, List.length_cons] at hrest ⊢
        omega

theorem plain_of_ordinary {c : CodePoint} (hslash : c ≠ codePoint '\\') (hdollar : c ≠ codePoint '$')
    (d : CodePoint) : Plain c d :=
  ⟨fun h => hslash h.1, fun h => hdollar h.1⟩

theorem literal_nil : Literal [] := ⟨by simp, List.IsChain.singleton _⟩

/-- A character in front of a literal text. -/
theorem literal_cons_iff {c : CodePoint} {s : Str} :
    Literal (c :: s) ↔ (c ≠ codePoint '"' ∧ c ≠ 0x60) ∧
      (∀ d ∈ (s ++ [codePoint '"']).head?, Plain c d) ∧ Literal s := by
  have hpairs : ((c :: s) ++ [codePoint '"']).IsChain Plain ↔
      (∀ d ∈ (s ++ [codePoint '"']).head?, Plain c d) ∧ (s ++ [codePoint '"']).IsChain Plain := by
    rw [List.cons_append, List.isChain_cons]
  constructor
  · intro h
    have hquotes := List.forall_mem_cons.mp h.quotes
    have hchain := hpairs.mp h.pairs
    exact ⟨hquotes.1, hchain.1, hquotes.2, hchain.2⟩
  · rintro ⟨hc, hhead, h⟩
    exact ⟨List.forall_mem_cons.mpr ⟨hc, h.quotes⟩, hpairs.mpr ⟨hhead, h.pairs⟩⟩

/-- The characters behind a backslash that are passed on with it. -/
theorem ordinary_of_not_escapable {d : CodePoint} (h : isEscapable d = false) :
    d ≠ codePoint '$' ∧ d ≠ 0x60 ∧ d ≠ codePoint '"' ∧ d ≠ codePoint '\\' := by
  refine ⟨?_, ?_, ?_, ?_⟩
  · rintro rfl
    exact absurd h (by decide)
  · rintro rfl
    exact absurd h (by decide)
  · rintro rfl
    exact absurd h (by decide)
  · rintro rfl
    exact absurd h (by decide)

/-- A character that is read as it is. -/
theorem readQuoted_ordinary {c : CodePoint} {rest : Str} (hquote : c ≠ codePoint '"')
    (hslash : c ≠ codePoint '\\')
    (hstop : ¬(c = 0x60 ∨ c = codePoint '$' ∧ rest.head?.any startsExpansion = true)) :
    readQuoted false (c :: rest) =
      (readQuoted false rest).map fun found => (c :: found.1, found.2) := by
  rw [readQuoted, if_neg hquote, if_neg hslash, if_neg hstop]

/-- A backslash that takes the meaning of the character behind it is not passed on. -/
theorem readQuoted_escape_ne {c d : CodePoint} {text word behind : Str}
    (h : isEscapable d = true ∨ d = codePoint '\n') (hlength : text.length ≤ word.length + behind.length) :
    readQuoted true (d :: text) ≠ some (c :: word, behind) := by
  intro hread
  rw [readQuoted] at hread
  split_ifs at hread with hnewline hescapable
  · have hword := readQuoted_length hread
    simp only [List.length_cons, Bool.toNat_false] at hword
    omega
  · obtain ⟨found, hfound, heq⟩ := Option.map_eq_some_iff.mp hread
    have hword := readQuoted_length hfound
    cases heq
    simp only [Bool.toNat_false] at hword
    omega
  · rcases h with h | h
    · exact hescapable h
    · exact hnewline h

/-- The character behind a text, inside the quotes. -/
theorem head?_quoted (s rest : Str) :
    (s ++ codePoint '"' :: rest).head? = (s ++ [codePoint '"']).head? := by
  cases s with
  | nil => rfl
  | cons c s => rfl

/-- The shell passes a text on as it is exactly when the text is literal. -/
theorem readQuoted_iff (s rest : Str) :
    readQuoted false (s ++ codePoint '"' :: rest) = some (s, rest) ↔ Literal s := by
  induction hlength : s.length using Nat.strongRecOn generalizing s with
  | ind n ih =>
    subst hlength
    cases s with
    | nil => simp [readQuoted, literal_nil]
    | cons c s =>
      rw [literal_cons_iff, List.cons_append]
      by_cases hquote : c = codePoint '"'
      · subst hquote
        simp [readQuoted]
      by_cases hslash : c = codePoint '\\'
      · subst hslash
        rw [readQuoted, if_neg (by decide), if_pos rfl]
        cases s with
        | nil =>
          -- The backslash would take the meaning of the closing quote.
          refine iff_of_false (readQuoted_escape_ne (Or.inl (by decide)) (by simp)) ?_
          intro h
          exact (h.2.1 (codePoint '"') rfl).1 ⟨rfl, Or.inl (by decide)⟩
        | cons d s =>
          by_cases hescape : isEscapable d = true ∨ d = codePoint '\n'
          · refine iff_of_false (readQuoted_escape_ne hescape ?_) ?_
            · show (s ++ codePoint '"' :: rest).length ≤ (d :: s).length + rest.length
              simp only [List.length_append, List.length_cons]
              omega
            · intro h
              exact (h.2.1 d rfl).1 ⟨rfl, hescape⟩
          · rw [not_or, Bool.not_eq_true] at hescape
            obtain ⟨hdollar, hgrave, hquote', hslash'⟩ := ordinary_of_not_escapable hescape.1
            have hplain : Plain (codePoint '\\') d := by
              refine ⟨fun h => ?_, fun h => absurd h.1 (by decide)⟩
              rcases h.2 with h | h
              · rw [hescape.1] at h
                cases h
              · exact hescape.2 h
            rw [List.cons_append, readQuoted, if_neg hescape.2, hescape.1, Option.map_eq_some_iff,
              literal_cons_iff, ← ih s.length (by simp) s rfl]
            constructor
            · rintro ⟨found, hfound, heq⟩
              simp only [Bool.false_eq_true, if_false, Prod.mk.injEq, List.cons.injEq, true_and] at heq
              refine ⟨⟨hquote, by decide⟩, ?_, ⟨hquote', hgrave⟩,
                fun e _ => plain_of_ordinary hslash' hdollar e, ?_⟩
              · intro e he
                obtain rfl : d = e := Option.some.inj he
                exact hplain
              · rw [hfound, ← heq.1, ← heq.2]
            · rintro ⟨-, -, -, -, hread⟩
              exact ⟨(s, rest), hread, by simp⟩
      by_cases hstop : c = 0x60 ∨
          c = codePoint '$' ∧ (s ++ codePoint '"' :: rest).head?.any startsExpansion = true
      · rw [readQuoted, if_neg hquote, if_neg hslash, if_pos hstop]
        refine iff_of_false (fun h => by cases h) ?_
        intro h
        rcases hstop with hgrave | ⟨hdollar, hstarts⟩
        · exact h.1.2 hgrave
        · rw [head?_quoted, Option.any_eq_true] at hstarts
          obtain ⟨d, hd, hstarts⟩ := hstarts
          exact (h.2.1 d hd).2 ⟨hdollar, hstarts⟩
      · rw [readQuoted_ordinary hquote hslash hstop, Option.map_eq_some_iff, ← ih s.length (by simp) s rfl]
        rw [not_or, head?_quoted] at hstop
        constructor
        · rintro ⟨found, hfound, heq⟩
          simp only [Prod.mk.injEq, List.cons.injEq, true_and] at heq
          refine ⟨⟨hquote, hstop.1⟩, fun d hd => ⟨fun h => hslash h.1, fun h => hstop.2 ⟨h.1, ?_⟩⟩, ?_⟩
          · rw [hd]
            exact h.2
          · rw [hfound, ← heq.1, ← heq.2]
        · rintro ⟨-, -, hread⟩
          exact ⟨(s, rest), hread, rfl⟩

end DevRepro.Shell
