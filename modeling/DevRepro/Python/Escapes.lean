import DevRepro.Lib.Escapes
import DevRepro.Python.Replace
import DevRepro.Python.Words

/-!
# Escapes by replacement

A chain of `str.replace` that writes escape sequences.  Each call replaces one
character, and the mark comes first.  When no later character stands in a
sequence that is already written, the chain is `Escapes.escape`
(`replaceEach_eq_escape`).

What happens to the text afterwards can be said of the text before it: white space
is stripped (`strip_escape`) and line breaks are replaced
(`replaceText_escape_char`, `replaceText_escape_pair`) as if nothing had been
escaped.
-/

namespace DevRepro.Python

open DevRepro.Lib

/-- `s.replace(c, new)` for one character. -/
theorem replaceText_char (c : CodePoint) (new s : Str) :
    replaceText [c] new s = s.flatMap fun d => if d = c then new else [d] := by
  induction s with
  | nil => rfl
  | cons d s ih =>
    rw [List.flatMap_cons, ← ih]
    by_cases hd : d = c
    · rw [if_pos hd, hd]
      exact replaceText_append (List.cons_ne_nil c []) s
    · have hstart : [c].isPrefixOf (d :: s) = false := by
        rw [List.isPrefixOf, beq_eq_false_iff_ne.mpr (Ne.symm hd), Bool.false_and]
      rw [if_neg hd, replaceText_cons hstart]
      rfl

/-- `s.replace(c, seq)` for each character of a table, in order. -/
def replaceEach (mark : CodePoint) (table : List (CodePoint × Str)) (s : Str) : Str :=
  table.foldl (fun s entry => replaceText [entry.1] (mark :: entry.2) s) s

/-- No character is replaced in a sequence that an earlier call wrote. -/
def Staged (mark : CodePoint) (table : List (CodePoint × Str)) : Prop :=
  table.Pairwise fun earlier later => later.1 ≠ earlier.1 ∧ later.1 ≠ mark ∧ later.1 ∉ earlier.2

instance (mark : CodePoint) (table : List (CodePoint × Str)) : Decidable (Staged mark table) :=
  inferInstanceAs (Decidable (table.Pairwise _))

/-- One more replacement is one more sequence. -/
theorem replaceText_escape {mark c : CodePoint} {tail : Str} {table : List (CodePoint × Str)}
    (h : ∀ earlier ∈ table, c ≠ earlier.1 ∧ c ≠ mark ∧ c ∉ earlier.2) (s : Str) :
    replaceText [c] (mark :: tail) (Escapes.escape ⟨mark, table⟩ s) =
      Escapes.escape ⟨mark, table ++ [(c, tail)]⟩ s := by
  rw [replaceText_char, Escapes.escape, Escapes.escape, List.flatMap_assoc]
  congr 1
  funext d
  rw [Escapes.symbol, Escapes.symbol, Escapes.tail?, Escapes.tail?, List.find?_append]
  cases hfound : table.find? (fun entry => entry.1 = d) with
  | some entry =>
    have hentry := h entry (List.mem_of_find?_eq_some hfound)
    have hkept : ∀ b ∈ mark :: entry.2, (if b = c then mark :: tail else [b]) = [b] := by
      intro b hb
      rw [if_neg]
      rintro rfl
      rcases List.mem_cons.mp hb with hmark | hin
      · exact hentry.2.1 hmark
      · exact hentry.2.2 hin
    show (mark :: entry.2).flatMap (fun b => if b = c then mark :: tail else [b]) = mark :: entry.2
    rw [List.flatMap_congr hkept]
    exact List.flatMap_singleton' _
  | none =>
    rw [Option.none_or]
    by_cases hd : c = d
    · simp [hd]
    · simp [hd, Ne.symm hd]

/-- A chain of replacements escapes. -/
theorem replaceEach_eq_escape {mark : CodePoint} {table : List (CodePoint × Str)}
    (h : Staged mark table) (s : Str) :
    replaceEach mark table s = Escapes.escape ⟨mark, table⟩ s := by
  induction table using List.reverseRecOn with
  | nil =>
    rw [replaceEach, Escapes.escape]
    exact (List.flatMap_singleton' s).symm
  | append_singleton table entry ih =>
    have hparts := List.pairwise_append.mp h
    have hlast : ∀ earlier ∈ table, entry.1 ≠ earlier.1 ∧ entry.1 ≠ mark ∧ entry.1 ∉ earlier.2 :=
      fun earlier hearlier => hparts.2.2 earlier hearlier entry (List.mem_singleton_self entry)
    have hrest := ih hparts.1
    rw [replaceEach] at hrest
    rw [replaceEach, List.foldl_append, hrest]
    exact replaceText_escape hlast s

/-! ## Behind the escapes -/

variable {e : Escapes CodePoint}

theorem symbol_of_tail? {c : CodePoint} (h : e.tail? c = none) : e.symbol c = [c] := by
  rw [Escapes.symbol, h]

/-- A character that no sequence holds stands in the symbol of itself only. -/
theorem mem_symbol {c d : CodePoint} (hmark : c ≠ e.mark) (htails : ∀ entry ∈ e.table, c ∉ entry.2)
    (h : c ∈ e.symbol d) : c = d := by
  rw [Escapes.symbol] at h
  cases htail : e.tail? d with
  | some tail =>
    rw [htail] at h
    rcases List.mem_cons.mp h with heq | hin
    · exact absurd heq hmark
    · exact absurd hin (htails _ (Escapes.mem_of_tail? htail))
  | none =>
    rw [htail] at h
    exact List.mem_singleton.mp h

/-- A character that is not escaped is replaced as if nothing had been. -/
theorem replaceText_escape_char {a b : CodePoint} (ha : e.tail? a = none) (hb : e.tail? b = none)
    (hmark : a ≠ e.mark) (htails : ∀ entry ∈ e.table, a ∉ entry.2) (s : Str) :
    replaceText [a] [b] (e.escape s) = e.escape (replaceText [a] [b] s) := by
  rw [replaceText_char, replaceText_char, Escapes.escape, Escapes.escape, List.flatMap_assoc,
    List.flatMap_assoc]
  congr 1
  funext c
  by_cases hc : c = a
  · rw [hc, symbol_of_tail? ha, List.flatMap_singleton, if_pos rfl, List.flatMap_singleton,
      symbol_of_tail? hb]
  · rw [if_neg hc, List.flatMap_singleton]
    have hkept : ∀ d ∈ e.symbol c, (if d = a then [b] else [d]) = [d] := by
      intro d hd
      rw [if_neg]
      rintro rfl
      exact hc (mem_symbol hmark htails hd).symm
    rw [List.flatMap_congr hkept]
    exact List.flatMap_singleton' _

/-- What does not hold the first character of an occurrence is passed over. -/
theorem replaceText_past {a : CodePoint} {old new seg : Str} (h : a ∉ seg) (rest : Str) :
    replaceText (a :: old) new (seg ++ rest) = seg ++ replaceText (a :: old) new rest := by
  induction seg with
  | nil => rfl
  | cons c seg ih =>
    rw [List.mem_cons, not_or] at h
    have hstart : (a :: old).isPrefixOf (c :: (seg ++ rest)) = false := by
      rw [List.isPrefixOf, beq_eq_false_iff_ne.mpr h.1, Bool.false_and]
    rw [List.cons_append, replaceText_cons hstart, ih h.2]
    rfl

/-- Two characters that are not escaped are replaced as if nothing had been. -/
theorem replaceText_escape_pair {a b d : CodePoint} (ha : e.tail? a = none)
    (hb : e.tail? b = none) (hd : e.tail? d = none) (hmark : a ≠ e.mark ∧ b ≠ e.mark)
    (htails : ∀ entry ∈ e.table, a ∉ entry.2) (s : Str) :
    replaceText [a, b] [d] (e.escape s) = e.escape (replaceText [a, b] [d] s) := by
  have hcons : ∀ c s, e.escape (c :: s) = e.symbol c ++ e.escape s := fun c s => List.flatMap_cons
  have hhead : ∀ s : Str, (e.escape s).head? = some b → ∃ rest, s = b :: rest := by
    intro s hs
    cases s with
    | nil => cases hs
    | cons c rest =>
      refine ⟨rest, ?_⟩
      rw [hcons, Escapes.symbol] at hs
      cases htail : e.tail? c with
      | some tail =>
        rw [htail] at hs
        exact absurd (Option.some.inj hs).symm hmark.2
      | none =>
        rw [htail] at hs
        rw [Option.some.inj hs]
  induction hlen : s.length using Nat.strongRecOn generalizing s with
  | ind n ih =>
    cases s with
    | nil => rfl
    | cons c s =>
      rw [List.length_cons] at hlen
      by_cases hc : c = a
      · rw [hc, hcons, symbol_of_tail? ha, List.singleton_append]
        by_cases hpair : ∃ rest, s = b :: rest
        · obtain ⟨rest, rfl⟩ := hpair
          rw [List.length_cons] at hlen
          have hboth : ∀ r : Str, replaceText [a, b] [d] (a :: b :: r) =
              d :: replaceText [a, b] [d] r := fun r =>
            replaceText_append (List.cons_ne_nil a [b]) r
          rw [hcons, symbol_of_tail? hb, List.singleton_append, hboth, hboth, hcons,
            symbol_of_tail? hd, ih rest.length (by omega) rest rfl]
          rfl
        · have hnone : ∀ r : Str, r.head? ≠ some b → [a, b].isPrefixOf (a :: r) = false := by
            intro r hr
            cases r with
            | nil => simp [List.isPrefixOf]
            | cons x r =>
              have hx : (b == x) = false := by
                rw [beq_eq_false_iff_ne]
                rintro rfl
                exact hr rfl
              simp [List.isPrefixOf, hx]
          have hplain : s.head? ≠ some b := by
            intro hs
            cases s with
            | nil => cases hs
            | cons x rest => exact hpair ⟨rest, by rw [Option.some.inj hs]⟩
          rw [replaceText_cons (hnone _ fun h => hpair (hhead s h)), replaceText_cons (hnone _ hplain),
            hcons, symbol_of_tail? ha, ih s.length (by omega) s rfl]
          rfl
      · have hstart : [a, b].isPrefixOf (c :: s) = false := by
          rw [List.isPrefixOf, beq_eq_false_iff_ne.mpr (Ne.symm hc), Bool.false_and]
        rw [hcons, replaceText_past (fun h => hc (mem_symbol hmark.1 htails h).symm),
          replaceText_cons hstart, hcons, ih s.length (by omega) s rfl]

/-- What is dropped at the start of a text is dropped at the start of what is written for it. -/
theorem dropWhile_flatMap {p : CodePoint → Bool} {f : CodePoint → Str}
    (hkept : ∀ c, p c = true → f c = [c])
    (hother : ∀ c, p c = false → ∃ d ∈ (f c).head?, p d = false) (s : Str) :
    (s.flatMap f).dropWhile p = (s.dropWhile p).flatMap f := by
  induction s with
  | nil => rfl
  | cons c s ih =>
    rw [List.flatMap_cons]
    cases hc : p c with
    | true =>
      rw [hkept c hc, List.singleton_append, List.dropWhile_cons_of_pos hc,
        List.dropWhile_cons_of_pos hc, ih]
    | false =>
      rw [List.dropWhile_cons_of_neg (by simp [hc]), List.flatMap_cons]
      obtain ⟨d, hd, hpd⟩ := hother c hc
      cases hf : f c with
      | nil =>
        rw [hf] at hd
        cases hd
      | cons x rest =>
        rw [hf] at hd
        rw [Option.some.inj hd, List.cons_append, List.dropWhile_cons_of_neg (by simp [hpd])]

/-- White space around a text is stripped as if nothing had been escaped. -/
theorem strip_escape (hspace : ∀ c, isSpace c = true → e.tail? c = none)
    (hmark : isSpace e.mark = false)
    (htails : ∀ entry ∈ e.table, ∃ d ∈ entry.2.getLast?, isSpace d = false) (s : Str) :
    strip (e.escape s) = e.escape (strip s) := by
  have hkept : ∀ c, isSpace c = true → e.symbol c = [c] := fun c hc =>
    symbol_of_tail? (hspace c hc)
  have hfirst : ∀ c, isSpace c = false → ∃ d ∈ (e.symbol c).head?, isSpace d = false := by
    intro c hc
    rw [Escapes.symbol]
    cases e.tail? c with
    | some tail => exact ⟨e.mark, rfl, hmark⟩
    | none => exact ⟨c, rfl, hc⟩
  have hlast : ∀ c, isSpace c = false → ∃ d ∈ (e.symbol c).reverse.head?, isSpace d = false := by
    intro c hc
    rw [List.head?_reverse, Escapes.symbol]
    cases htail : e.tail? c with
    | some tail =>
      obtain ⟨d, hd, hpd⟩ := htails _ (Escapes.mem_of_tail? htail)
      refine ⟨d, ?_, hpd⟩
      rw [Option.mem_def] at hd ⊢
      dsimp only at hd ⊢
      rw [List.getLast?_cons, hd]
      rfl
    | none => exact ⟨c, rfl, hc⟩
  have hback : ∀ c, isSpace c = true → (List.reverse ∘ e.symbol) c = [c] := by
    intro c hc
    rw [Function.comp_apply, hkept c hc]
    rfl
  rw [strip, strip, Escapes.escape, Escapes.escape, dropWhile_flatMap hkept hfirst,
    List.reverse_flatMap, @dropWhile_flatMap isSpace (List.reverse ∘ e.symbol) hback hlast,
    List.reverse_flatMap]
  congr 1
  funext c
  exact List.reverse_reverse _

end DevRepro.Python
