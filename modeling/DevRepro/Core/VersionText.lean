import DevRepro.Core.VersionOrder
import DevRepro.Lib.MapM
import DevRepro.Python.Digits
import DevRepro.Python.Words

/-!
# How numbers between dots are read

As a version, as a clause of a range behind a comparison, and as a whole range.
-/

namespace DevRepro.Core

open DevRepro.Python DevRepro.Lib

variable {limits : Limits}

/-! ## Numbers between dots -/

/-- One number or more. -/
structure Dotted where
  parts : List Str
  ne_nil : parts ≠ []
  numbers : ∀ part ∈ parts, IsNumber part

/-- The numbers with dots between them. -/
def Dotted.text (d : Dotted) : Str := join "." d.parts

def Dotted.nums (d : Dotted) : List Nat := d.parts.map numberOf

theorem dot_not_digit : digitValue? (codePoint '.') = none := by decide

theorem Dotted.splitOn_text (d : Dotted) : d.text.splitOn (codePoint '.') = d.parts := by
  rw [Dotted.text, join_eq_intercalate]
  exact List.splitOn_intercalate _ (fun part h => (d.numbers part h).not_mem dot_not_digit) d.ne_nil

theorem Dotted.mem_text {d : Dotted} {c : CodePoint} (h : c ∈ d.text) :
    c = codePoint '.' ∨ (digitValue? c).isSome = true := by
  rcases mem_join h with h | ⟨part, hpart, hc⟩
  · exact Or.inl (by simpa [lit] using h)
  · exact Or.inr ((d.numbers part hpart).2 c hc)

theorem Dotted.not_mem_text (d : Dotted) {c : CodePoint} (hc : digitValue? c = none)
    (hdot : c ≠ codePoint '.') : c ∉ d.text := by
  intro h
  rcases d.mem_text h with h | h
  · exact hdot h
  · exact digit_ne h hc rfl

theorem Dotted.not_space {d : Dotted} : ∀ c ∈ d.text, isSpace c = false := by
  intro c hc
  rcases d.mem_text hc with rfl | h
  · decide
  · exact digit_not_space h

/-- The text begins with a digit. -/
theorem Dotted.text_cons (d : Dotted) :
    ∃ c rest, d.text = c :: rest ∧ (digitValue? c).isSome = true := by
  obtain ⟨part, parts, hparts⟩ := List.exists_cons_of_ne_nil d.ne_nil
  have hpart := d.numbers part (hparts ▸ List.mem_cons_self)
  obtain ⟨c, rest, rfl⟩ := List.exists_cons_of_ne_nil hpart.1
  have hc := hpart.2 c List.mem_cons_self
  rw [Dotted.text, hparts]
  cases parts with
  | nil => exact ⟨c, rest, rfl, hc⟩
  | cons next others => exact ⟨c, _, rfl, hc⟩

theorem strip_eq_self {s : Str} (h : ∀ c ∈ s, isSpace c = false) : strip s = s := by
  rw [strip_eq_stripChars]
  exact stripChars_eq_self (fun c hc => h c (List.mem_of_mem_head? hc))
    fun c hc => h c (List.mem_of_mem_getLast? hc)

/-! ## As a version -/

theorem digitsOf_number {s : Str} (h : IsNumber s) :
    digitsOf limits s = if limits.intDigits < s.length then none else some (numberOf s) := by
  obtain ⟨c, rest, rfl⟩ := List.exists_cons_of_ne_nil h.1
  unfold digitsOf
  rw [mapM_digitValue? h.2]
  simp [numberOf, List.foldl_map]

theorem mapM_digitsOf {parts : List Str} (h : ∀ part ∈ parts, IsNumber part) :
    parts.mapM (digitsOf limits) =
      if ∀ part ∈ parts, part.length ≤ limits.intDigits then some (parts.map numberOf) else none := by
  induction parts with
  | nil => rfl
  | cons part parts ih =>
    rw [List.mapM_cons, digitsOf_number (h part List.mem_cons_self),
      ih fun p hp => h p (List.mem_cons_of_mem _ hp)]
    have hall : (∀ p ∈ part :: parts, p.length ≤ limits.intDigits) ↔
        part.length ≤ limits.intDigits ∧ ∀ p ∈ parts, p.length ≤ limits.intDigits :=
      List.forall_mem_cons
    by_cases hpart : part.length ≤ limits.intDigits
    · rw [if_neg (not_lt.mpr hpart)]
      by_cases hrest : ∀ p ∈ parts, p.length ≤ limits.intDigits
      · rw [if_pos hrest, if_pos (hall.mpr ⟨hpart, hrest⟩)]
        rfl
      · rw [if_neg hrest, if_neg fun h => hrest (hall.mp h).2]
        rfl
    · rw [if_pos (not_le.mp hpart), if_neg fun h => hpart (hall.mp h).1]
      rfl

theorem Dotted.isNums_text (d : Dotted) : isNums d.text = true := by
  rw [isNums, d.splitOn_text, List.all_eq_true]
  intro part hpart
  obtain ⟨hne, hdigits⟩ := d.numbers part hpart
  rw [Bool.and_eq_true, List.all_eq_true]
  exact ⟨by simpa using hne, hdigits⟩

/-- The longest numeric part that leaves a tag is the whole text. -/
theorem splitVersion_of_isNums {s : Str} (hne : s ≠ []) (h : isNums s = true) :
    splitVersion s = some (s, none) := by
  obtain ⟨n, hn⟩ : ∃ n, s.length = n + 1 :=
    ⟨s.length - 1, by have := List.length_pos_of_ne_nil hne; omega⟩
  unfold splitVersion
  rw [hn, List.range_succ, List.reverse_append, List.reverse_singleton, List.singleton_append,
    List.findSome?_cons, ← hn, List.take_length, List.drop_length, if_pos h]
  rfl

theorem Dotted.parseVersion_text (d : Dotted) (limits : Limits) :
    parseVersion limits d.text =
      if ∀ part ∈ d.parts, part.length ≤ limits.intDigits then some (release d.nums) else none := by
  obtain ⟨c, rest, htext, hc⟩ := d.text_cons
  have hv : d.text.head? ≠ some (codePoint 'v') := by
    rw [htext, List.head?_cons]
    exact fun h => digit_ne hc (by decide) (Option.some_inj.mp h)
  unfold parseVersion
  rw [strip_eq_self d.not_space]
  dsimp only
  rw [if_neg hv, splitVersion_of_isNums (htext ▸ List.cons_ne_nil _ _) d.isNums_text]
  dsimp only
  rw [d.splitOn_text]
  rw [mapM_digitsOf d.numbers]
  split_ifs <;> rfl

/-! ## As a clause -/

/-- A text that `_CLAUSE_RE` takes as the version of a clause. -/
structure Plain (s : Str) : Prop where
  head : ∃ c rest, s = c :: rest ∧ isSpace c = false ∧
    c ∉ [codePoint '*', codePoint '>', codePoint '<', codePoint '!', codePoint '=']
  line : codePoint '\n' ∉ s

theorem Dotted.plain (d : Dotted) : Plain d.text := by
  obtain ⟨c, rest, htext, hc⟩ := d.text_cons
  refine ⟨⟨c, rest, htext, digit_not_space hc, ?_⟩, d.not_mem_text (by decide) (by decide)⟩
  simp only [List.mem_cons, List.not_mem_nil, or_false, not_or]
  exact ⟨digit_ne hc (by decide), digit_ne hc (by decide), digit_ne hc (by decide),
    digit_ne hc (by decide), digit_ne hc (by decide)⟩

/-- `\\s*(?P<ver>.+)$` -/
def clauseVersion (s : Str) : Option Str :=
  let rest := s.dropWhile isSpace
  if rest = [] ∨ codePoint '\n' ∈ rest then none else some rest

/-- A clause with one of the comparisons. -/
def clauseWith (text : Str) (written : Str × Op) : Option (Option Op × Str) :=
  if written.1.isPrefixOf text then
    (clauseVersion (text.drop written.1.length)).map fun rest => (some written.2, rest)
  else none

theorem clauseParts_eq (text : Str) :
    clauseParts text = (opTexts.findSome? (clauseWith text)).or
      ((clauseVersion text).map fun rest => (none, rest)) := rfl

theorem Plain.clauseVersion {s : Str} (hs : Plain s) : clauseVersion s = some s := by
  obtain ⟨⟨c, rest, rfl, hspace, -⟩, hline⟩ := hs
  have hdrop : (c :: rest).dropWhile isSpace = c :: rest := by simp [hspace]
  simp [Core.clauseVersion, hdrop, hline]

theorem codePoint_inj {c d : Char} : codePoint c = codePoint d ↔ c = d := by
  constructor
  · intro h
    have hval : (codePoint c).val = (codePoint d).val := congrArg Fin.val h
    exact Char.toNat_inj.mp hval
  · exact fun h => h ▸ rfl

/-- No comparison but the written one fits the start of a clause. -/
theorem clauseParts_op {written : Str} {op : Op} {s : Str} (h : (written, op) ∈ opTexts)
    (hs : Plain s) : clauseParts (written ++ s) = some (some op, s) := by
  have hversion := hs.clauseVersion
  obtain ⟨⟨c, rest, rfl, -, hc⟩, -⟩ := hs
  have heq : ¬codePoint '=' = c := by
    rintro rfl
    exact hc (by decide)
  simp only [opTexts, List.mem_cons, List.not_mem_nil, or_false, Prod.mk.injEq] at h
  rw [clauseParts_eq]
  rcases h with ⟨rfl, rfl⟩ | ⟨rfl, rfl⟩ | ⟨rfl, rfl⟩ | ⟨rfl, rfl⟩ | ⟨rfl, rfl⟩ | ⟨rfl, rfl⟩ |
    ⟨rfl, rfl⟩ | ⟨rfl, rfl⟩ <;>
  simp [opTexts, clauseWith, lit, List.cons_prefix_cons, codePoint_inj, heq, hversion]

theorem clauseParts_bare {s : Str} (hs : Plain s) : clauseParts s = some (none, s) := by
  have hversion := hs.clauseVersion
  obtain ⟨⟨c, rest, rfl, -, hc⟩, -⟩ := hs
  have hne : ∀ d ∈ [codePoint '*', codePoint '>', codePoint '<', codePoint '!', codePoint '='],
      ¬d = c := fun d hd heq => hc (heq ▸ hd)
  simp only [List.forall_mem_cons, List.not_mem_nil, false_imp_iff, implies_true, and_true] at hne
  rw [clauseParts_eq]
  simp [opTexts, clauseWith, lit, List.cons_prefix_cons, hne, hversion]

/-! ## As a whole range -/

theorem splitGroups_single {s : Str} (h : codePoint '|' ∉ s) : splitGroups s = [s] := by
  induction s with
  | nil => rfl
  | cons c s ih =>
    cases s with
    | nil => rfl
    | cons d s =>
      have hc : c ≠ codePoint '|' := fun heq => h (heq ▸ List.mem_cons_self)
      rw [splitGroups, if_neg fun hbar => hc hbar.1, ih fun hmem => h (List.mem_cons_of_mem _ hmem)]

end DevRepro.Core
