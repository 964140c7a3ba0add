import DevRepro.Lib.Lines
import DevRepro.Python.Text

/-!
# Replacing a text

`str.replace`, from left to right.  A text without a newline is replaced in each line
on its own.
-/

namespace DevRepro.Python

open DevRepro.Lib

/-- `s.replace(old, new)`, for a text `old` that is not empty: `skip` characters belong
to an occurrence that is replaced. -/
def replaceFrom (old new : Str) : Nat → Str → Str
  | _, [] => []
  | skip + 1, _ :: rest => replaceFrom old new skip rest
  | 0, c :: rest =>
    if old.isPrefixOf (c :: rest) then new ++ replaceFrom old new (old.length - 1) rest
    else c :: replaceFrom old new 0 rest

/-- `s.replace(old, new)`. -/
def replaceText (old new s : Str) : Str := replaceFrom old new 0 s

variable {old new : Str}

@[simp] theorem replaceText_nil : replaceText old new [] = [] := rfl

theorem replaceFrom_eq_drop (skip : Nat) (s : Str) :
    replaceFrom old new skip s = replaceText old new (s.drop skip) := by
  induction s generalizing skip with
  | nil =>
    rw [List.drop_nil]
    cases skip with
    | zero => rfl
    | succ skip => rfl
  | cons c s ih =>
    cases skip with
    | zero => rfl
    | succ skip => rw [replaceFrom, ih, List.drop_succ_cons]

/-- An occurrence at the start is replaced. -/
theorem replaceText_append (hne : old ≠ []) (s : Str) :
    replaceText old new (old ++ s) = new ++ replaceText old new s := by
  cases hold : old with
  | nil => exact absurd hold hne
  | cons c rest =>
    have hprefix : (c :: rest).isPrefixOf (c :: (rest ++ s)) = true :=
      List.isPrefixOf_iff_prefix.mpr (List.prefix_append (c :: rest) s)
    rw [replaceText, List.cons_append, replaceFrom, if_pos hprefix, replaceFrom_eq_drop, List.length_cons,
      Nat.add_sub_cancel, List.drop_left]

/-- A character that no occurrence starts at stays. -/
theorem replaceText_cons {c : CodePoint} {s : Str} (h : old.isPrefixOf (c :: s) = false) :
    replaceText old new (c :: s) = c :: replaceText old new s := by
  rw [replaceText, replaceFrom, h]
  rfl

/-- A text without an occurrence stays, and in any other one the first is replaced. -/
theorem replaceText_cases (hne : old ≠ []) (s : Str) :
    (¬old <:+: s ∧ replaceText old new s = s) ∨
      ∃ before after, s = before ++ (old ++ after) ∧ (before = [] → old <+: s) ∧
        replaceText old new s = before ++ (new ++ replaceText old new after) := by
  induction s with
  | nil => exact Or.inl ⟨fun h => hne (List.eq_nil_of_infix_nil h), rfl⟩
  | cons c s ih =>
    by_cases hprefix : old.isPrefixOf (c :: s) = true
    · obtain ⟨after, hafter⟩ := List.isPrefixOf_iff_prefix.mp hprefix
      refine Or.inr ⟨[], after, hafter.symm, fun _ => ⟨after, hafter⟩, ?_⟩
      rw [← hafter, replaceText_append hne]
      rfl
    · have hstart := eq_false_of_ne_true hprefix
      rw [replaceText_cons hstart]
      rcases ih with ⟨hwithout, heq⟩ | ⟨before, after, rfl, -, heq⟩
      · refine Or.inl ⟨?_, by rw [heq]⟩
        rw [List.infix_cons_iff]
        rintro (h | h)
        · exact hprefix (List.isPrefixOf_iff_prefix.mpr h)
        · exact hwithout h
      · refine Or.inr ⟨c :: before, after, rfl, fun h => absurd h (List.cons_ne_nil _ _), ?_⟩
        rw [heq]
        rfl

/-! ## Lines -/

variable {brk : CodePoint → Bool} {nl : CodePoint}

theorem isPrefixOf_line (hold : nl ∉ old) {s rest : Str} :
    old.isPrefixOf (s ++ nl :: rest) = old.isPrefixOf s := by
  rw [Bool.eq_iff_iff, List.isPrefixOf_iff_prefix, List.isPrefixOf_iff_prefix]
  constructor
  · intro h
    rcases List.prefix_or_prefix_of_prefix h (List.prefix_append s (nl :: rest)) with h' | h'
    · exact h'
    · -- A longer text would hold the character behind the line.
      obtain ⟨tail, rfl⟩ := h'
      rw [List.prefix_append_right_inj] at h
      cases tail with
      | nil => simp
      | cons d tail =>
        obtain ⟨hd, -⟩ := List.cons_prefix_cons.mp h
        rw [hd] at hold
        simp at hold
  · exact fun h => h.trans (List.prefix_append _ _)

/-- Each line is replaced on its own. -/
theorem replaceText_line (hne : old ≠ []) (hold : nl ∉ old) (line rest : Str) :
    replaceText old new (line ++ nl :: rest) =
      replaceText old new line ++ nl :: replaceText old new rest := by
  have hskip : ∀ skip ≤ line.length, replaceFrom old new skip (line ++ nl :: rest) =
      replaceFrom old new skip line ++ nl :: replaceText old new rest := by
    induction line with
    | nil =>
      intro skip hskip
      obtain rfl : skip = 0 := Nat.le_zero.mp hskip
      have hstart : old.isPrefixOf (nl :: rest) = false := by
        have h : old.isPrefixOf ([] ++ nl :: rest) = old.isPrefixOf [] := isPrefixOf_line hold
        rw [List.nil_append] at h
        rw [h]
        cases old with
        | nil => exact absurd rfl hne
        | cons c old => rfl
      exact replaceText_cons hstart
    | cons c line ih =>
      intro skip hskip
      cases skip with
      | succ skip =>
        rw [List.cons_append, replaceFrom, replaceFrom]
        exact ih skip (Nat.le_of_succ_le_succ hskip)
      | zero =>
        rw [List.cons_append, replaceFrom, replaceFrom, ← List.cons_append, isPrefixOf_line hold]
        split_ifs with hprefix
        · have hlength := (List.isPrefixOf_iff_prefix.mp hprefix).length_le
          rw [List.length_cons] at hlength
          rw [ih _ (by omega), List.append_assoc]
        · rw [ih 0 (Nat.zero_le _)]
          rfl
  exact hskip 0 (Nat.zero_le _)

theorem replaceText_unlines (hne : old ≠ []) (hold : nl ∉ old) (lines : List Str) :
    replaceText old new (unlines nl lines) = unlines nl (lines.map (replaceText old new)) := by
  induction lines with
  | nil => rfl
  | cons line lines ih =>
    have hcons : ∀ (line : Str) (lines : List Str),
        unlines nl (line :: lines) = line ++ nl :: unlines nl lines := by simp [unlines]
    rw [hcons, replaceText_line hne hold, ih, List.map_cons, hcons]

end DevRepro.Python
